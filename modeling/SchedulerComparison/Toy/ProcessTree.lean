import Mathlib.Tactic.Ring
import SchedulerComparison.Launcher.ProcessTree
import SchedulerComparison.Toy.Sweep

/-!
# The processes of the toy launcher

A child of the toy launcher whose `execl` returns goes on as a launcher, with the rest of the sweep
before it, and so do the children that it forks. `main_diesOut`: in a sweep of `n` trials up to
`4 ^ n` processes come to be; still nobody waits for something that cannot happen, and all come to
their end, when the programs that are executed do. So many come to be where SIGTERM is ignored: a
child whose `execl` of hackbench returned has `0` in `hackbench`, and its `kill(0, SIGTERM)` signals
the process group that it is itself in. `processes_dieOut` is about the three launchers.
-/

open Posix Posix.Sys Transition

namespace Toy

open Launcher (Image IsInt Role launcherPid)

/-- Where a process of the tree can be: where the launcher can be, or in a trial behind an `execl`
that has returned. -/
def TreeAt (args : Args) : Point → Prop
  | .trial _ np f r _ => InPairs args np ∧ InFibs args f ∧ 0 ≤ r ∧ r < args.numReps
  | l => SweepAt args l

/-- The processes that come from one in the trial, itself among them, up to the end of the trial. -/
def TrialPoint.spread : TrialPoint → Nat
  | .forkHackbench => 4
  | .hackbenchForked _ | .warmUp _ | .forkFib _ => 2
  | _ => 1

/-- The processes that come from one in the trial that it is in. -/
def Point.trialSpread : Point → Nat
  | .trial _ _ _ _ p => p.spread
  | _ => 1

/-- The processes that can come from one, itself among them. Each of those that come to the end of a
trial goes through the trials that are left. -/
def Point.spread (args : Args) (l : Point) : Nat :=
  l.trialSpread * 4 ^ (l.trialsLeft args).length

section
variable {args : Args} {k n : Nat} {np f r pid ret : Int} {p p' : TrialPoint} {l l' : Point}
  {g : Int → Point} {role : Role}

/-! ## In a trial -/

/-- A process is in a trial, or where the launcher can be. -/
theorem TreeAt.cases (h : TreeAt args l) :
    (∃ k np f r p, l = .trial k np f r p ∧ p ≠ .returned) ∨ SweepAt args l := by
  cases l with
  | trial k np f r p =>
    by_cases hp : p = .returned
    · subst hp
      exact .inr ⟨h.1, h.2.1, h.2.2, trivial⟩
    · exact .inl ⟨k, np, f, r, p, rfl, hp⟩
  | pairs | fibs | reps | done => exact .inr h

theorem treeAt_of_sweepAt (h : SweepAt args l) : TreeAt args l := by
  cases l with
  | trial k np f r p => exact ⟨h.1, h.2.1, h.2.2.1⟩
  | pairs | fibs | reps | done => exact h

/-- A step of `run_trial` that neither forks nor waits takes a process on, and leaves what comes
from it. -/
theorem TrialFlow.on (hf : TrialFlow p p') : p'.callsLeft < p.callsLeft ∧ p'.spread = p.spread := by
  cases hf <;> exact ⟨by simp [TrialPoint.callsLeft], rfl⟩

/-- A call takes a process on in its trial. -/
theorem trial_successor (hp : p ≠ .returned) (hs : Successor (main args) (.trial k np f r p) l') :
    ∃ p', l' = .trial k np f r p' ∧ p'.callsLeft < p.callsLeft := by
  cases hs with
  | goes hg =>
    cases main_flow hg with
    | rep => exact absurd rfl hp
    | run _ _ _ _ hf => exact ⟨_, rfl, hf.on.1⟩
  | fork hc h0 hl =>
    obtain ⟨n, role, hf⟩ := main_fork hc
    subst hl
    cases hf <;> exact ⟨_, rfl, by simp [TrialPoint.callsLeft]⟩
  | wait hc hl =>
    subst hl
    cases main_wait hc <;> exact ⟨_, rfl, by simp [TrialPoint.callsLeft]⟩

/-! ## In the sweep -/

/-- A call takes a process on. -/
theorem treeAt_step (hints : args.AreInts) (h : TreeAt args l) (hs : Successor (main args) l l') :
    TreeAt args l' ∧ l'.callsLeft args < l.callsLeft args := by
  rcases h.cases with ⟨k, np, f, r, p, rfl, hp⟩ | hat
  · obtain ⟨p', rfl, hcalls⟩ := trial_successor hp hs
    refine ⟨h, ?_⟩
    simp only [Point.callsLeft]
    omega
  · exact (sweepAt_step hints hat hs).imp_left treeAt_of_sweepAt

/-- A call has a meaning. -/
theorem treeAt_defined (hints : args.AreInts) (h : TreeAt args l) : main args l ≠ .undefined := by
  rcases h.cases with ⟨k, np, f, r, p, rfl, hp⟩ | hat
  · exact main_trial_defined hp
  · exact sweepAt_defined hints hat

/-- A fork takes the child on as it does the parent. -/
theorem ForksAt.child_on (hf : ForksAt l k role g) (h : TreeAt args l) :
    TreeAt args (g 0) ∧ (g 0).callsLeft args < l.callsLeft args := by
  cases hf <;> exact ⟨h, by simp [Point.callsLeft, TrialPoint.callsLeft]⟩

/-- A fork shares what comes from the parent. -/
theorem ForksAt.shares (hf : ForksAt l k role g) :
    (g pid).spread args + (g 0).spread args = l.spread args := by
  cases hf <;>
    simp only [Point.spread, Point.trialSpread, TrialPoint.spread, Point.trialsLeft] <;> ring

/-- A wait leaves what comes from a process. -/
theorem WaitsAt.spread (hw : WaitsAt l g) : (g pid).spread args = l.spread args := by
  cases hw <;> rfl

/-- The other calls leave what comes from a process: at the head of a trial, the trial goes from
those that are left to the one that it is in. -/
theorem spread_goes (hints : args.AreInts) (h : TreeAt args l) (hg : Goes n ret (main args l) l') :
    l'.spread args = l.spread args := by
  have hs : Successor (main args) l l' := .goes hg
  rcases h.cases with ⟨k, np, f, r, p, rfl, hp⟩ | hat
  · cases main_flow hg with
    | rep => exact absurd rfl hp
    | run _ _ _ _ hf => exact congrArg (· * 4 ^ (repsLeft args np f (r + 1)).length) hf.on.2
  · have outside : l.trialSpread = 1 → l'.trialSpread = 1 → l'.enters = none →
        l'.spread args = l.spread args := by
      intro hl hl' hn
      have hleft := trialsLeft_successor hints hat hs
      rw [hn, Option.toList_none, List.nil_append] at hleft
      rw [Point.spread, Point.spread, hl, hl', hleft]
    cases l with
    | pairs k np =>
      have hl' := hs.eq_of_skip (main_pairs args k np)
      split at hl' <;> subst hl' <;> exact outside rfl rfl rfl
    | fibs k np f =>
      rcases le_or_gt f args.maxFibNumber with hle | hlt
      · cases hs.eq_of_skip (main_fibs_of_le hle)
        exact outside rfl rfl rfl
      · cases hs.eq_of_skip (main_fibs_of_lt hlt hat.1.isInt_next)
        exact outside rfl rfl rfl
    | reps k np f r =>
      rcases lt_or_ge r args.numReps with hlt | hle
      · rw [hs.eq_of_print (main_reps_of_lt hlt)]
        simp only [Point.spread, Point.trialSpread, TrialPoint.spread, Point.trialsLeft,
          repsLeft_of_lt hlt, List.length_cons]
        ring
      · cases hs.eq_of_skip (main_reps_of_le hle hat.2.1.isInt_next)
        exact outside rfl rfl rfl
    | trial k np f r p =>
      cases main_flow hg with
      | rep => rfl
      | run _ _ _ _ hf => exact congrArg (· * 4 ^ (repsLeft args np f (r + 1)).length) hf.on.2
    | done => cases hg

/-- A process that leaves the sweep is the only one that comes from it. -/
theorem spread_exit (hints : args.AreInts) {status : Int} (h : TreeAt args l)
    (hc : main args l = .exit status) : l.spread args = 1 := by
  cases l with
  | done => rfl
  | pairs k np => cases (main_pairs args k np).symm.trans hc
  | fibs k np f =>
    rcases le_or_gt f args.maxFibNumber with hle | hlt
    · cases (main_fibs_of_le hle).symm.trans hc
    · cases (main_fibs_of_lt hlt h.1.isInt_next).symm.trans hc
  | reps k np f r =>
    rcases lt_or_ge r args.numReps with hlt | hle
    · cases (main_reps_of_lt hlt).symm.trans hc
    · cases (main_reps_of_le hle h.2.1.isInt_next).symm.trans hc
  | trial k np f r p =>
    by_cases hp : p = .returned
    · subst hp
      cases (main_returned (isInt_next_rep hints h.2.2)).symm.trans hc
    · rw [main_trial hp] at hc
      cases p with
      | hackbenchForked | fibForked | waited | hackbenchWaited =>
        simp only [runTrial] at hc
        split at hc <;> cases hc
      | _ => cases hc

/-- The processes of the toy launcher spread so. -/
theorem main_spreads (hints : args.AreInts) :
    Spreads (main args) (TreeAt args) (Point.callsLeft args) (Point.spread args) where
  pos := by
    intro l _
    have htrial : 0 < l.trialSpread := by
      cases l with
      | trial k np f r p => cases p <;> simp [Point.trialSpread, TrialPoint.spread]
      | _ => exact Nat.one_pos
    exact Nat.mul_pos htrial (Nat.pow_pos (by decide))
  defined := treeAt_defined hints
  step := treeAt_step hints
  child h hk := by
    obtain ⟨n, role, hf⟩ := main_fork hk
    exact hf.child_on h
  goes := spread_goes hints
  shares _ hk _ := by
    obtain ⟨n, role, hf⟩ := main_fork hk
    exact hf.shares
  waits _ hk := (main_wait hk).spread
  ends := spread_exit hints

end

/-- The processes of the toy launcher die out, and are at most `4 ^ n`. -/
theorem main_diesOut (args : Args) (hints : args.AreInts) (hfits : args.SweepFits) :
    DiesOut (main args) (start args) (4 ^ (requestedTrials args).length) := by
  have hat : TreeAt args (.pairs 0 args.minHackbenchPairs) := ⟨hints.minHackbenchPairs, hfits⟩
  have hspread : Point.spread args (.pairs 0 args.minHackbenchPairs) =
      4 ^ (requestedTrials args).length := Nat.one_mul _
  exact hspread ▸ (main_spreads hints).diesOut (by decide) hat

/-- In every run of one of the three launchers whose loops fit into `int`s, whatever fails, the
processes die out: those of a C++ launcher are at most two for each trial and the launcher, those of
the toy launcher four times as many with each trial. -/
theorem processes_dieOut :
    (∀ (c : Launcher.Program) (args : Launcher.Args), args.AreInts → args.SweepFits →
      DiesOut (c.main args) Launcher.start
        (1 + 2 * (Launcher.requestedTrials args).length)) ∧
    ∀ args : Args, args.AreInts → args.SweepFits →
      DiesOut (main args) (start args) (4 ^ (requestedTrials args).length) :=
  ⟨Launcher.main_diesOut, main_diesOut⟩

/-- Two trials of `hackbench_interupt.cpp` make up to five processes, and two of the toy launcher up
to sixteen. -/
theorem processes_twoTrials :
    DiesOut (Launcher.Program.interupt.main { reps := 2 }) Launcher.start 5 ∧
      DiesOut (main { numReps := 2 }) (start { numReps := 2 }) 16 :=
  ⟨processes_dieOut.1 .interupt _ ⟨by decide, by decide, by decide, by decide, by decide⟩
      (by decide),
    processes_dieOut.2 _
      ⟨by decide, by decide, by decide, by decide, by decide, by decide, by decide, by decide⟩
      (by decide)⟩

end Toy
