import SchedulerComparison.Hackbench.Barrier
import SchedulerComparison.Hackbench.Cleanup

/-!
# `main` of hackbench when nothing fails

What `main` and the workers do in the runs in which nothing fails (`NoFault`): `main` reaps all the
workers that it has forked, and waits for as many (`State.Faultless`); every step outside of the
loops of the workers leaves less to do (`rest_step`), where a `fork` pays for the worker that it
creates; and `main` can go on unless it waits for a worker that has not written its ready byte or
has not exited (`main_goes`). The loops are added in `Hackbench.System`.
-/

open Transition Finset

namespace Hackbench

/-! ## Where `main` is when nothing fails -/

/-- The control points of `main` when nothing fails, from the start of the reaping on. -/
def MainPoint.Faultless : MainPoint → Prop
  | .sigcatcher _ | .longjmped | .ignoreTerm | .kill _ _ _ => False
  | .reap _ dokill after => dokill = false ∧ after = .report
  | .waitHead _ _ after | .wait _ _ after => after = .report
  | .exited status => status = 0
  | _ => True

/-- `main` counts the workers that it has waited for, and waits for all of them. -/
def State.Waited (s : State) : MainPoint → Prop
  | .reap n _ _ => n.toNat = s.forked
  | .waitHead k n _ => n.toNat = s.forked ∧ k.toNat ≤ s.reaped
  | .wait k n _ => n.toNat = s.forked ∧ k.toNat ≤ s.reaped ∧ k.toNat < s.forked
  | .report | .freeTab | .exit | .exited _ => s.forked ≤ s.reaped
  | _ => True

/-- What holds of `main` when nothing fails. -/
structure State.Faultless (o : Options) (s : State) : Prop where
  uncaught : s.signalCaught = false
  fits : 0 < s.wakeBytes → o.workers < 2 ^ 32
  at_point : s.point.Faultless
  waited : s.Waited s.point

section
variable {o : Options} {s s' : State} {e : Event} {k : Nat} {x : Phase}

/-- A worker that was not reaped goes on to a phase. -/
theorem State.Waited.setPhase {l : MainPoint} (h : s.Waited l)
    (hx : (s.workers k).phase ≠ .reaped) : (s.setPhase k x).Waited l := by
  have hle : s.reaped ≤ (s.setPhase k x).reaped := State.reaped_setPhase hx
  cases l with
  | waitHead => exact ⟨h.1, h.2.trans hle⟩
  | wait => exact ⟨h.1, h.2.1.trans hle, h.2.2⟩
  | report | freeTab | exit | exited => exact Nat.le_trans h hle
  | _ => exact h

/-- `num_fds * 2` does not wrap when the number of workers does not. -/
theorem fds_lt (hw : o.workers < 2 ^ 32) : 2 * o.numFds.toNat < 2 ^ 32 := by
  have hgroups : 1 ≤ o.numGroups.toNat := UInt32.le_iff_toNat_le.1 o.one_le_numGroups
  have hle : 1 * (2 * o.numFds.toNat) ≤ o.numGroups.toNat * (2 * o.numFds.toNat) :=
    Nat.mul_le_mul_right _ hgroups
  rw [Options.workers, Nat.mul_assoc] at hw
  omega

/-- Once the workers are woken, their number does not wrap. -/
theorem State.Faultless.fits_of_open (h : s.Faultless o) (hopen : s.Open o) :
    o.workers < 2 ^ 32 := h.fits (hopen.wake ▸ Nat.one_pos)

/-- Where every worker is counted, `main` reaps them all. -/
theorem counted_of_reapAll (hw : o.workers < 2 ^ 32) (hat : s.core.At o .reapAll)
    (hs : s.signalCaught = false) : s.totalChildren.toNat = s.forked := by
  obtain hcaught | hb := hat
  · exact absurd (hs.symm.trans hcaught) Bool.false_ne_true
  · exact (hb.exact (fds_lt hw)).symm

/-- The next statement of `main`, when nothing fails. -/
theorem faultless_main {ret : Int} (hinv : Inv o s.core s.point) (hg : s.Gate o s.point)
    (h : s.Faultless o) (hC : s.point.Succeeds ret) (hs : mainStep o s ret = some s') :
    s'.Faultless o := by
  have hun := h.uncaught
  have hfits := h.fits
  have hl := h.at_point
  have hwaited := h.waited
  have hat := hinv.at_point
  cases hp : s.point <;> rw [hp] at hl hC hg hat hwaited <;> simp only [mainStep, hp] at hs
  case groupHead | receiverHead | senderHead | readyHead =>
    cases hs
    refine ⟨hun, hfits, ?_, ?_⟩
    all_goals
      dsimp only [State.goto]
      split <;> trivial
  case sndMalloc | receiverMalloc =>
    rw [if_pos (show ret ≠ 0 from hC)] at hs
    cases hs
    exact ⟨hun, hfits, trivial, trivial⟩
  case receiverPipe =>
    rw [if_pos (show ret = 0 from hC)] at hs
    cases hs
    exact ⟨hun, hfits, trivial, trivial⟩
  case receiverFork | senderFork =>
    obtain ⟨hret, -⟩ | ⟨-, -, -, rfl⟩ := State.fork_cases hs
    · exact absurd hret hC
    · exact ⟨hun, hfits, trivial, trivial⟩
  case receiverStore | senderStore =>
    rw [if_neg hg.2] at hs
    obtain ⟨-, rfl⟩ := State.store_cases hs
    exact ⟨hun, hfits, trivial, trivial⟩
  case groupReturned =>
    rw [if_neg (not_not_intro hg.2.1)] at hs
    cases hs
    exact ⟨hun, hfits, trivial, trivial⟩
  case setScheduler =>
    have hret : 0 ≤ ret := hC
    rw [if_neg fun hf => absurd hf.2 (Int.not_lt.2 hret)] at hs
    cases hs
    exact ⟨hun, hfits, trivial, trivial⟩
  case readReady =>
    rw [if_pos (show ret = 1 from hC)] at hs
    split at hs <;> cases hs
    exact ⟨hun, hfits, trivial, trivial⟩
  case wake =>
    have htotal : s.totalChildren.toNat = o.numGroups.toNat * (2 * o.numFds.toNat) := hg.2.1
    have hlt := s.totalChildren.toNat_lt
    rw [if_pos (show ret = 1 from hC)] at hs
    cases hs
    refine ⟨hun, fun _ => ?_, trivial, trivial⟩
    rw [Options.workers, Nat.mul_assoc]
    omega
  case count | startTime =>
    cases hs
    exact ⟨hun, hfits, trivial, trivial⟩
  case sigcatcher | longjmped | ignoreTerm | kill => exact hl.elim
  case reapAll =>
    cases hs
    exact ⟨hun, hfits, ⟨hun, rfl⟩, counted_of_reapAll (h.fits_of_open hg) hat hun⟩
  case reap n dokill after =>
    obtain ⟨rfl, rfl⟩ := hl
    rw [if_neg Bool.false_ne_true] at hs
    cases hs
    exact ⟨hun, hfits, rfl, hwaited, Nat.zero_le _⟩
  case waitHead k n after =>
    obtain ⟨hn, hk⟩ := hwaited
    obtain rfl : after = .report := hl
    cases hs
    dsimp only
    split
    · next hlt => exact ⟨hun, hfits, rfl, hn, hk, hn ▸ UInt32.lt_iff_toNat_lt.1 hlt⟩
    · next hnot => exact ⟨hun, hfits, trivial, (hn ▸ toNat_le_of_not_lt hnot).trans hk⟩
  case wait k n after =>
    obtain ⟨hn, hk, hlt⟩ := hwaited
    have hsucc : (k + 1).toNat = k.toNat + 1 := toNat_succ (hn ▸ hlt)
    obtain ⟨hpoint, -, hreaped⟩ := State.reaped_waitWorker hlt hk hs
    have hkeep : s'.signalCaught = s.signalCaught ∧ s'.wakeBytes = s.wakeBytes ∧
        s'.forked = s.forked := by
      obtain ⟨-, -, rfl⟩ | ⟨i, -, -, -, rfl⟩ := State.waitWorker_cases hs <;> exact ⟨rfl, rfl, rfl⟩
    refine ⟨hkeep.1.trans hun, hkeep.2.1 ▸ hfits, ?_, ?_⟩
    · rw [hpoint]
      exact hl
    · rw [hpoint]
      exact ⟨hn.trans hkeep.2.2.symm, by omega⟩
  case report =>
    cases hs
    exact ⟨hun, hfits, trivial, hwaited⟩
  case freeTab =>
    split at hs <;> cases hs
    exact ⟨hun, hfits, trivial, hwaited⟩
  case exit =>
    cases hs
    exact ⟨hun, hfits, rfl, hwaited⟩
  case exited => cases hs

/-- Every step in which nothing fails. -/
theorem faultless_step (hinv : Inv o s.core s.point) (hg : s.Gate o s.point)
    (h : s.Faultless o) (hC : NoFault s e) (hs : step o s e = some s') : s'.Faultless o := by
  cases moves_of_step hs with
  | main hs => exact faultless_main hinv hg h hC hs
  | @ready k hk hx =>
    have hphase : (s.workers k).phase ≠ .reaped := by rw [hx]; decide
    exact ⟨h.uncaught, h.fits, h.at_point, h.waited.setPhase hphase⟩
  | @woken k hk hx | @exit k hk hx =>
    have hphase : (s.workers k).phase ≠ .reaped := by rw [hx]; decide
    exact ⟨h.uncaught, h.fits, h.at_point, h.waited.setPhase hphase⟩
  | data => exact ⟨h.uncaught, h.fits, h.at_point, h.waited⟩
  | caught | ignored | fail | term => exact hC.elim

/-- What holds of `main` in every state that a run in which nothing fails reaches. -/
theorem reach_faultless (h : Reach (step o) NoFault start s) : s.Faultless o := by
  induction h with
  | refl => exact ⟨rfl, fun hw => absurd hw (Nat.not_lt_zero 0), trivial, trivial⟩
  | tail hr hC hs ih => exact faultless_step (reach_inv hr) (reach_gate hr) ih hC hs

/-- When nothing fails the table is freed once. -/
theorem reach_tabKept (h : Reach (step o) NoFault start s) : s.TabKept :=
  h.invariant (fun hf => absurd hf Bool.false_ne_true) fun _ _ _ hi hC hs =>
    tabKept_step hi (by rintro sig rfl; exact hC.elim) hs

/-! ## What is left to do -/

/-- The steps that a worker has left outside of its loop. -/
def Phase.rest : Phase → Nat
  | .start => 4
  | .polling => 3
  | .running => 2
  | .zombie => 1
  | .reaped => 0

/-- What `main` and the new workers have left to do behind group `i`. -/
def Options.restBehind (o : Options) (i : UInt32) : Nat :=
  (o.numGroups.toNat - i.toNat - 1) * (16 * o.numFds.toNat + 6) + 4 * o.workers + 11

/-- The statements that `main` has left when nothing fails, and the steps of the workers that it
still forks. -/
def MainPoint.rest (o : Options) : MainPoint → Nat
  | .groupHead i =>
    (o.numGroups.toNat - i.toNat) * (16 * o.numFds.toNat + 6) + 4 * o.workers + 11
  | .sndMalloc i => 16 * o.numFds.toNat + o.restBehind i + 5
  | .receiverHead i j =>
    9 * (o.numFds.toNat - j.toNat) + 7 * o.numFds.toNat + o.restBehind i + 4
  | .receiverMalloc i j =>
    9 * (o.numFds.toNat - j.toNat) + 7 * o.numFds.toNat + o.restBehind i + 3
  | .receiverPipe i j => 9 * (o.numFds.toNat - j.toNat) + 7 * o.numFds.toNat + o.restBehind i + 2
  | .receiverFork i j => 9 * (o.numFds.toNat - j.toNat) + 7 * o.numFds.toNat + o.restBehind i + 1
  | .receiverStore i j _ =>
    9 * (o.numFds.toNat - j.toNat - 1) + 7 * o.numFds.toNat + o.restBehind i + 5
  | .senderHead i j => 7 * (o.numFds.toNat - j.toNat) + o.restBehind i + 3
  | .senderFork i j => 7 * (o.numFds.toNat - j.toNat) + o.restBehind i + 2
  | .senderStore i j _ => 7 * (o.numFds.toNat - j.toNat - 1) + o.restBehind i + 4
  | .groupReturned i _ => o.restBehind i + 2
  | .count i _ => o.restBehind i + 1
  | .setScheduler => 4 * o.workers + 10
  | .readyHead i => 2 * (o.workers - i.toNat) + 2 * o.workers + 9
  | .readReady i => 2 * (o.workers - i.toNat) + 2 * o.workers + 8
  | .startTime => 2 * o.workers + 8
  | .wake => 2 * o.workers + 7
  | .reapAll => 2 * o.workers + 6
  | .reap n _ _ => 2 * n.toNat + 5
  | .waitHead k n _ => 2 * (n.toNat - k.toNat) + 4
  | .wait k n _ => 2 * (n.toNat - k.toNat) + 3
  | .report => 3
  | .freeTab => 2
  | .exit => 1
  | .sigcatcher _ | .longjmped | .ignoreTerm | .kill _ _ _ | .exited _ => 0

/-- What the workers have left to do outside of their loops. -/
def State.workersRest (s : State) : Nat := ∑ k ∈ range s.forked, (s.workers k).phase.rest

/-- What `main` and the workers have left to do outside of the loops. -/
def State.rest (o : Options) (s : State) : Nat := s.point.rest o + s.workersRest

/-- A worker that goes on has less left to do. -/
theorem State.workersRest_setPhase (hk : k < s.forked) :
    (s.setPhase k x).workersRest + (s.workers k).phase.rest = s.workersRest + x.rest :=
  sum_update (range s.forked) s.workers (fun w => w.phase.rest) (mem_range.2 hk)
    { s.workers k with phase := x }

/-- A new worker has all its steps left. -/
theorem State.workersRest_fork {func : Func} {ret : Int} {l : Int → MainPoint} (hret : ret ≠ -1)
    (hs : s.fork func ret l = some s') :
    s'.point = l ret ∧ s'.catches = s.catches ∧ s'.workersRest = s.workersRest + 4 := by
  obtain ⟨hfail, -⟩ | ⟨-, -, -, rfl⟩ := State.fork_cases hs
  · exact absurd hfail hret
  · have hsum : ∑ k ∈ range s.forked, (Function.update s.workers s.forked
        ({ pid := ret, func := func } : Worker) k).phase.rest = s.workersRest :=
      sum_congr rfl fun k hk => by rw [Function.update_of_ne (Nat.ne_of_lt (mem_range.1 hk))]
    refine ⟨rfl, rfl, ?_⟩
    show ∑ k ∈ range (s.forked + 1), (Function.update s.workers s.forked _ k).phase.rest = _
    rw [sum_range_succ, hsum, Function.update_self]
    rfl

/-- A `fork` pays for the worker that it creates. -/
theorem State.rest_fork {func : Func} {ret : Int} {l : Int → MainPoint} (hret : ret ≠ -1)
    (hl : ∀ pid, (l pid).rest o + 4 < s.point.rest o) (hs : s.fork func ret l = some s') :
    s'.rest o < s.rest o := by
  obtain ⟨hpoint, -, hworkers⟩ := State.workersRest_fork hret hs
  have := hl ret
  rw [State.rest, State.rest, hpoint, hworkers]
  omega

/-- The groups that are left, and the one that `main` is in. -/
theorem Options.rest_groups {i : UInt32} (hi : i.toNat < o.numGroups.toNat) :
    (o.numGroups.toNat - i.toNat) * (16 * o.numFds.toNat + 6) + 4 * o.workers + 11 =
      16 * o.numFds.toNat + 6 + o.restBehind i := by
  obtain ⟨m, hm⟩ := Nat.exists_eq_add_of_lt hi
  have hleft : o.numGroups.toNat - i.toNat = m + 1 := by omega
  rw [Options.restBehind, hleft, Nat.add_sub_cancel, Nat.succ_mul]
  omega

/-- The next statement of `main` leaves less to do, when nothing fails. -/
theorem rest_main {ret : Int} (hinv : Inv o s.core s.point) (hg : s.Gate o s.point)
    (h : s.Faultless o) (hC : s.point.Succeeds ret) (hs : mainStep o s ret = some s') :
    s'.rest o < s.rest o := by
  have hgoto : ∀ {l : MainPoint}, l.rest o < s.point.rest o → (s.goto l).rest o < s.rest o :=
    fun hlt => Nat.add_lt_add_right hlt _
  have hun := h.uncaught
  have hl := h.at_point
  have hwaited := h.waited
  have hat := hinv.at_point
  cases hp : s.point <;> rw [hp] at hl hC hg hat hwaited hgoto <;> simp only [mainStep, hp] at hs
  case groupHead i =>
    cases hs
    refine hgoto ?_
    split
    · next hi =>
      have := Options.rest_groups (UInt32.lt_iff_toNat_lt.1 hi)
      simp only [MainPoint.rest]
      omega
    · simp only [MainPoint.rest]
      omega
  case sndMalloc i =>
    rw [if_pos (show ret ≠ 0 from hC)] at hs
    cases hs
    refine hgoto ?_
    simp only [MainPoint.rest, UInt32.toNat_zero]
    omega
  case receiverHead i j =>
    cases hs
    refine hgoto ?_
    split
    · simp only [MainPoint.rest]
      omega
    · simp only [MainPoint.rest, UInt32.toNat_zero]
      omega
  case receiverMalloc i j =>
    rw [if_pos (show ret ≠ 0 from hC)] at hs
    cases hs
    refine hgoto ?_
    simp only [MainPoint.rest]
    omega
  case receiverPipe i j =>
    rw [if_pos (show ret = 0 from hC)] at hs
    cases hs
    refine hgoto ?_
    simp only [MainPoint.rest]
    omega
  case receiverFork i j =>
    have hj := hat.1
    refine State.rest_fork hC (fun pid => ?_) hs
    rw [hp]
    simp only [MainPoint.rest]
    omega
  case senderFork i j =>
    have hj := hat.1
    refine State.rest_fork hC (fun pid => ?_) hs
    rw [hp]
    simp only [MainPoint.rest]
    omega
  case receiverStore i j pid =>
    have hj : (j + 1).toNat = j.toNat + 1 := toNat_succ hat.1
    rw [if_neg hg.2] at hs
    obtain ⟨-, rfl⟩ := State.store_cases hs
    refine hgoto ?_
    simp only [MainPoint.rest]
    omega
  case senderStore i j pid =>
    have hj : (j + 1).toNat = j.toNat + 1 := toNat_succ hat.1
    rw [if_neg hg.2] at hs
    obtain ⟨-, rfl⟩ := State.store_cases hs
    refine hgoto ?_
    simp only [MainPoint.rest]
    omega
  case senderHead i j =>
    cases hs
    refine hgoto ?_
    split
    · simp only [MainPoint.rest]
      omega
    · simp only [MainPoint.rest]
      omega
  case groupReturned i c =>
    rw [if_neg (not_not_intro hg.2.1)] at hs
    cases hs
    refine hgoto ?_
    simp only [MainPoint.rest]
    omega
  case count i c =>
    have hi : (i + 1).toNat = i.toNat + 1 := toNat_succ hg.1.2.2
    cases hs
    refine hgoto ?_
    simp only [MainPoint.rest, Options.restBehind, hi, ← Nat.sub_sub]
    omega
  case setScheduler =>
    have hret : 0 ≤ ret := hC
    rw [if_neg fun hf => absurd hf.2 (Int.not_lt.2 hret)] at hs
    cases hs
    refine hgoto ?_
    simp only [MainPoint.rest, UInt32.toNat_zero]
    omega
  case readyHead i =>
    cases hs
    refine hgoto ?_
    split
    · simp only [MainPoint.rest]
      omega
    · simp only [MainPoint.rest]
      omega
  case readReady i =>
    have hi : (i + 1).toNat = i.toNat + 1 := toNat_succ hg.2.2
    have htotal : s.totalChildren.toNat = o.numGroups.toNat * (2 * o.numFds.toNat) := hg.2.1
    have hlt := hg.2.2
    have hworkers : o.workers = o.numGroups.toNat * (2 * o.numFds.toNat) := Nat.mul_assoc _ _ _
    rw [if_pos (show ret = 1 from hC)] at hs
    split at hs <;> cases hs
    refine hgoto ?_
    simp only [MainPoint.rest]
    omega
  case startTime =>
    cases hs
    refine hgoto ?_
    simp only [MainPoint.rest]
    omega
  case wake =>
    rw [if_pos (show ret = 1 from hC)] at hs
    cases hs
    refine hgoto ?_
    simp only [MainPoint.rest]
    omega
  case sigcatcher | longjmped | ignoreTerm | kill => exact hl.elim
  case reapAll =>
    have htotal : s.totalChildren.toNat = s.forked := counted_of_reapAll (h.fits_of_open hg) hat hun
    have hforked : s.forked = o.workers := hg.forked
    cases hs
    refine hgoto ?_
    simp only [MainPoint.rest]
    omega
  case reap n dokill after =>
    obtain ⟨rfl, rfl⟩ := hl
    rw [if_neg Bool.false_ne_true] at hs
    cases hs
    refine hgoto ?_
    simp only [MainPoint.rest, UInt32.toNat_zero]
    omega
  case waitHead k n after =>
    obtain rfl : after = .report := hl
    cases hs
    refine hgoto ?_
    split
    · simp only [MainPoint.rest]
      omega
    · simp only [MainPoint.rest]
      omega
  case wait k n after =>
    obtain ⟨hn, -, hlt⟩ := hwaited
    have hsucc : (k + 1).toNat = k.toNat + 1 := toNat_succ (hn ▸ hlt)
    have hrest : MainPoint.rest o (.waitHead (k + 1) n after) <
        MainPoint.rest o (.wait k n after) := by
      simp only [MainPoint.rest]
      omega
    obtain ⟨-, -, rfl⟩ | ⟨i, hi, -, hzombie, rfl⟩ := State.waitWorker_cases hs
    · exact hgoto hrest
    · have hreap := State.workersRest_setPhase (s := s) (x := .reaped) hi
      have hone : Phase.rest .zombie = 1 := rfl
      have hzero : Phase.rest .reaped = 0 := rfl
      rw [hzombie, hone, hzero] at hreap
      show MainPoint.rest o (.waitHead (k + 1) n after) + (s.setPhase i .reaped).workersRest <
        s.point.rest o + s.workersRest
      rw [hp]
      omega
  case report | exit =>
    cases hs
    refine hgoto ?_
    simp only [MainPoint.rest]
    omega
  case freeTab =>
    split at hs <;> cases hs
    refine hgoto ?_
    simp only [MainPoint.rest]
    omega
  case exited => cases hs

/-- Every step outside of the loops leaves less to do, when nothing fails. -/
theorem rest_step (hinv : Inv o s.core s.point) (hg : s.Gate o s.point) (h : s.Faultless o)
    (hC : NoFault s e) (hdata : ∀ k, e ≠ .data k) (hs : step o s e = some s') :
    s'.rest o < s.rest o := by
  have hphase : ∀ {k : Nat} {x : Phase}, k < s.forked →
      x.rest < (s.workers k).phase.rest →
      (s.setPhase k x).point.rest o + (s.setPhase k x).workersRest < s.rest o := by
    intro k x hk hlt
    have := State.workersRest_setPhase (s := s) (x := x) hk
    show s.point.rest o + _ < s.point.rest o + s.workersRest
    omega
  cases moves_of_step hs with
  | main hs => exact rest_main hinv hg h hC hs
  | ready hk hx | woken hk hx | exit hk hx => exact hphase hk (by rw [hx]; decide)
  | data => exact absurd rfl (hdata _)
  | caught | ignored | fail | term => exact hC.elim

/-! ## Nobody waits for ever -/

/-- There is a pid that no worker has. -/
theorem exists_pid (s : State) :
    ∃ pid : Int, 0 < pid ∧ ∀ i < s.forked, (s.workers i).pid ≠ pid := by
  refine ⟨∑ i ∈ range s.forked, (s.workers i).pid.natAbs + 1, by omega, fun i hi heq => ?_⟩
  have hle : (s.workers i).pid.natAbs ≤ ∑ i ∈ range s.forked, (s.workers i).pid.natAbs :=
    single_le_sum (f := fun i => (s.workers i).pid.natAbs) (fun _ _ => Nat.zero_le _)
      (mem_range.2 hi)
  omega

/-- `fork` can succeed. -/
theorem State.exists_fork (s : State) (func : Func) (l : Int → MainPoint) :
    ∃ ret s', ret ≠ -1 ∧ s.fork func ret l = some s' := by
  obtain ⟨pid, hpos, hfresh⟩ := exists_pid s
  have hret : pid ≠ -1 := by omega
  refine ⟨pid, Option.get _ ?_, hret, (Option.some_get _).symm⟩
  rw [State.fork, if_neg hret, if_pos ⟨hpos, hfresh⟩]
  rfl

/-- The table has an entry for every worker of a group that is being created. -/
theorem slot_lt (hw : o.workers < 2 ^ 32) {i slot : UInt32} {n : Nat}
    (hi : i.toNat < o.numGroups.toNat) (hgroups : s.Groups o i.toNat) (hn : n < 2 * o.numFds.toNat)
    (hslot : s.totalChildren.toNat + n < 2 ^ 32 → slot.toNat = s.totalChildren.toNat + n) :
    slot < o.tabSize := by
  have htotal : s.totalChildren.toNat = i.toNat * (2 * o.numFds.toNat) := hgroups
  have hle : (i.toNat + 1) * (2 * o.numFds.toNat) ≤ o.numGroups.toNat * (2 * o.numFds.toNat) :=
    Nat.mul_le_mul_right _ hi
  have hworkers : o.workers = o.numGroups.toNat * (2 * o.numFds.toNat) := Nat.mul_assoc _ _ _
  have hsize : o.tabSize.toNat = o.numGroups.toNat * (2 * o.numFds.toNat) := by
    rw [Options.tabSize, UInt32.toNat_mul, toNat_numFds_two (fds_lt hw), Nat.mul_comm]
    exact Nat.mod_eq_of_lt (hworkers ▸ hw)
  rw [Nat.succ_mul] at hle
  rw [UInt32.lt_iff_toNat_lt, hsize, hslot (by omega)]
  omega

/-- A ready byte is missing in the pipe while a worker has not written its own. -/
theorem State.Closed.exists_start {n : Nat} (h : s.Closed n) (hbytes : s.readyBytes = 0)
    (hn : n < s.forked) : ∃ k < s.forked, (s.workers k).phase = .start := by
  by_contra hnone
  have hone : ∀ k ∈ range s.forked, (s.workers k).readyWritten = 1 :=
    fun k hk => if_neg fun hx => hnone ⟨k, mem_range.1 hk, hx⟩
  have hsum : ∑ k ∈ range s.forked, (s.workers k).readyWritten = s.readyBytes + n := h.bytes
  rw [sum_congr rfl hone, sum_const, card_range, Nat.nsmul_eq_mul, Nat.mul_one] at hsum
  omega

/-- Where `main` cannot go on waiting, no worker has exited. -/
theorem not_zombie {l : MainPoint} (hpos : ∀ i < s.forked, 0 < (s.workers i).pid)
    (hno : ∀ ret, s.waitWorker ret l = none) : ∀ k < s.forked, (s.workers k).phase ≠ .zombie := by
  intro k hk hx
  have hneg : (s.workers k).pid ≠ -1 := by
    have := hpos k hk
    omega
  have hwait := hno (s.workers k).pid
  rw [State.waitWorker, if_neg hneg, Option.map_eq_none_iff, List.find?_eq_none] at hwait
  exact hwait k (List.mem_range.2 hk) (by rw [hx]; simp)

/-- Where `main` waits for a worker and there is none that has exited, one has not. -/
theorem exists_unfinished {l : MainPoint} (hpos : ∀ i < s.forked, 0 < (s.workers i).pid)
    (hno : ∀ ret, s.waitWorker ret l = none) :
    ∃ k < s.forked, (s.workers k).phase ≠ .zombie ∧ (s.workers k).phase ≠ .reaped := by
  by_contra hall
  have hreaped : ∀ k < s.forked, (s.workers k).phase = .reaped := by
    intro k hk
    by_contra hx
    exact hall ⟨k, hk, not_zombie hpos hno k hk, hx⟩
  have hwait := hno (-1)
  rw [State.waitWorker, if_pos rfl, if_pos hreaped] at hwait
  cases hwait

/-- `main` can go on when nothing fails, or it waits for the ready byte of a worker, or for one that
has not exited. -/
theorem main_goes (hw : o.workers < 2 ^ 32) (hinv : Inv o s.core s.point) (hg : s.Gate o s.point)
    (h : s.Faultless o) (hkept : s.TabKept) (hl : s.point.isExited = false) :
    (∃ ret s', s.point.Succeeds ret ∧ mainStep o s ret = some s') ∨
      ∃ k < s.forked, (s.workers k).phase = .start ∨
        s.Open o ∧ (s.workers k).phase ≠ .zombie ∧ (s.workers k).phase ≠ .reaped := by
  have hfaultless := h.at_point
  have hat := hinv.at_point
  cases hp : s.point <;> rw [hp] at hl hg hat hfaultless
  case groupHead | receiverHead | senderHead | groupReturned | count | readyHead | startTime
      | reapAll | waitHead | report | exit =>
    exact .inl ⟨0, _, trivial, by simp only [mainStep, hp]; rfl⟩
  case freeTab =>
    have hnot : s.tabFreed = false := hkept.not_freed (by rw [hp]; rfl)
    exact .inl ⟨0, _, trivial, by simp only [mainStep, hp, if_pos hnot]; rfl⟩
  case reap n dokill after =>
    obtain ⟨rfl, rfl⟩ := hfaultless
    exact .inl ⟨0, _, trivial, by simp only [mainStep, hp, if_neg Bool.false_ne_true]; rfl⟩
  case sndMalloc | receiverMalloc =>
    exact .inl ⟨1, _, Int.one_ne_zero, by simp only [mainStep, hp]; rfl⟩
  case receiverPipe => exact .inl ⟨0, _, rfl, by simp only [mainStep, hp]; rfl⟩
  case setScheduler => exact .inl ⟨0, _, Int.le_refl 0, by simp only [mainStep, hp]; rfl⟩
  case receiverFork i j =>
    obtain ⟨ret, s', hret, hs⟩ := s.exists_fork .receiver (.receiverStore i j)
    exact .inl ⟨ret, s', hret, by simpa only [mainStep, hp] using hs⟩
  case senderFork i j =>
    obtain ⟨ret, s', hret, hs⟩ := s.exists_fork .sender (.senderStore i j)
    exact .inl ⟨ret, s', hret, by simpa only [mainStep, hp] using hs⟩
  case receiverStore i j pid =>
    obtain ⟨⟨-, hgroups, hi⟩, -⟩ := hg
    have hj : j.toNat < o.numFds.toNat := hat.1
    have hslot : s.totalChildren + j < o.tabSize :=
      slot_lt hw hi hgroups (n := j.toNat) (by omega) toNat_add_of_lt
    exact .inl ⟨0, _, trivial, by simp only [mainStep, hp, State.store, if_pos hslot]; rfl⟩
  case senderStore i j pid =>
    obtain ⟨⟨-, hgroups, hi⟩, -⟩ := hg
    have hj : j.toNat < o.numFds.toNat := hat.1
    have hfds := fds_lt hw
    have hadd : (o.numFds + j).toNat = o.numFds.toNat + j.toNat := toNat_add_of_lt (by omega)
    have hslot : s.totalChildren + o.numFds + j < o.tabSize := by
      refine slot_lt hw hi hgroups (n := o.numFds.toNat + j.toNat) (by omega) fun hlt => ?_
      rw [UInt32.add_assoc, toNat_add_of_lt (by rwa [hadd]), hadd]
    exact .inl ⟨0, _, trivial, by simp only [mainStep, hp, State.store, if_pos hslot]; rfl⟩
  case readReady i =>
    by_cases hbytes : 0 < s.readyBytes
    · exact .inl ⟨1, _, rfl, by simp only [mainStep, hp, if_pos, if_pos hbytes]; rfl⟩
    · have hforked : s.forked = s.core.counted := hat.exact (fds_lt hw)
      obtain ⟨k, hk, hx⟩ := hg.1.exists_start (Nat.eq_zero_of_not_pos hbytes)
        (Nat.lt_of_lt_of_eq hg.2.2 hforked.symm)
      exact .inr ⟨k, hk, .inl hx⟩
  case wake => exact .inl ⟨1, _, rfl, by simp only [mainStep, hp, if_pos]; rfl⟩
  case wait k n after =>
    by_cases hwait : ∃ ret s', s.waitWorker ret (.waitHead (k + 1) n after) = some s'
    · obtain ⟨ret, s', hs⟩ := hwait
      exact .inl ⟨ret, s', trivial, by simpa only [mainStep, hp] using hs⟩
    · have hno : ∀ ret, s.waitWorker ret (.waitHead (k + 1) n after) = none :=
        fun ret => Option.eq_none_iff_forall_ne_some.2 fun s' hs => hwait ⟨ret, s', hs⟩
      obtain ⟨i, hi, hx⟩ := exists_unfinished hinv.distinct.pos hno
      exact .inr ⟨i, hi, .inr ⟨hg, hx⟩⟩
  case sigcatcher | longjmped | ignoreTerm | kill => exact hfaultless.elim
  case exited => cases hl

end

end Hackbench
