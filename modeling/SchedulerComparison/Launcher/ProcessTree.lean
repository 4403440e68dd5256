import SchedulerComparison.Launcher.Completion
import SchedulerComparison.Lib.ProcessTree

/-!
# The processes of the C++ launchers

A child of a C++ launcher whose `execl` returns exits. `main_diesOut`: whatever fails, and in
whatever order the processes go on, at most `1 + 2 * n` processes come to be in a sweep of `n`
trials, nobody waits for something that cannot happen, and all come to their end.
-/

open Posix Posix.Sys Transition

namespace Launcher

/-- The launcher is in its sweep, and a child before it leaves the program. -/
inductive TreeAt (c : Program) (args : Args) : Point → Prop
  | launcher {l : Point} (h : SweepAt c args l) : TreeAt c args l
  | child (k : Nat) (np r : Int) {role : Role} {p : TrialPoint} (h : Branch c role p) :
      TreeAt c args (.trial k np r p)

/-- The control point is one of a child. -/
def TrialPoint.isChild : TrialPoint → Bool
  | .hackbenchForked h | .interuptHackbenchForked _ _ h => h == 0
  | .testProcForked _ _ t | .interuptTestProcForked _ t => t == 0
  | .execTestProg | .exitFailed => true
  | _ => false

/-- The forks that the launcher has left in a trial. -/
def TrialPoint.forksLeft : TrialPoint → Nat
  | .forkHackbench | .interuptPrepare | .interuptStart | .interuptForkTestProc _ => 2
  | .hackbenchForked _ | .warmUp _ | .prepare _ | .runProg _ | .forkTestProc _ _
  | .interuptTestProcForked _ _ | .interuptForkHackbench _ _ => 1
  | _ => 0

/-- The control point is one of a child. -/
def Point.isChild : Point → Bool
  | .trial _ _ _ p => p.isChild
  | _ => false

/-- The forks that the launcher has left in the trial that it is in. -/
def Point.forksLeft : Point → Nat
  | .trial _ _ _ p => p.forksLeft
  | _ => 0

/-- The calls that are still to come, of the launcher or of a child. -/
def Point.treeCalls (args : Args) (l : Point) : Nat :=
  if l.isChild then l.childCalls else l.callsLeft args

/-- The processes that can come from one, itself among them. -/
def Point.spread (args : Args) (l : Point) : Nat :=
  if l.isChild then 1 else 1 + l.forksLeft + 2 * (l.trialsLeft args).length

section
variable {c : Program} {args : Args} {k n : Nat} {np r pid ret : Int} {p p' : TrialPoint}
  {l l' : Point} {f : Int → Point} {role : Role}

/-! ## The launcher and its children -/

theorem Branch.isChild (h : Branch c role p) : p.isChild = true := by cases h <;> rfl

theorem OnPath.not_isChild (h : OnPath c p) : p.isChild = false := by
  cases p with
  | hackbenchForked | testProcForked | interuptTestProcForked | interuptHackbenchForked =>
    cases c <;> first | exact h.elim | exact beq_false_of_ne h
  | execTestProg | exitFailed => cases c <;> exact h.elim
  | _ => rfl

theorem SweepAt.not_isChild (h : SweepAt c args l) : l.isChild = false := by
  cases l with
  | trial => exact h.2.2.not_isChild
  | begin | pairs | reps | done => rfl

theorem SweepAt.treeCalls (h : SweepAt c args l) : l.treeCalls args = l.callsLeft args := by
  rw [Point.treeCalls, h.not_isChild]
  rfl

theorem SweepAt.spread (h : SweepAt c args l) :
    l.spread args = 1 + l.forksLeft + 2 * (l.trialsLeft args).length := by
  rw [Point.spread, h.not_isChild]
  rfl

theorem Branch.treeCalls (h : Branch c role p) :
    (Point.trial k np r p).treeCalls args = (Point.trial k np r p).childCalls := if_pos h.isChild

theorem Branch.spread (h : Branch c role p) : (Point.trial k np r p).spread args = 1 :=
  if_pos h.isChild

/-- A call of a child leaves it one. -/
theorem Branch.goes (h : Branch c role p) (hg : Goes n ret (c.main args (.trial k np r p)) l') :
    ∃ role' p', l' = .trial k np r p' ∧ Branch c role' p' := by
  cases role with
  | hackbench =>
    rw [h.execl] at hg
    cases hg
    exact ⟨.testProg, .exitFailed, rfl, .exitFailed c⟩
  | testProg =>
    cases main_flow hg with
    | rep => cases h
    | run _ _ _ hf => exact ⟨.testProg, _, rfl, h.flow hf⟩

/-- A call of a child is one of its own. -/
theorem Branch.successor (h : Branch c role p)
    (hs : Successor (c.main args) (.trial k np r p) l') :
    ∃ role' p', l' = .trial k np r p' ∧ Branch c role' p' ∧
      l'.childCalls < (Point.trial k np r p).childCalls := by
  cases hs with
  | goes hg =>
    obtain ⟨role', p', rfl, h'⟩ := h.goes hg
    exact ⟨role', p', rfl, h', childCalls_lt (.trial k np r h.childTrialPoint) (main_flow hg)⟩
  | fork hc => exact absurd hc h.not_fork
  | wait hc => exact absurd hc h.not_wait

/-! ## What comes from a process -/

/-- A call takes a process on. -/
theorem treeAt_step (hreps : IsInt args.reps) (h : TreeAt c args l)
    (hs : Successor (c.main args) l l') :
    TreeAt c args l' ∧ l'.treeCalls args < l.treeCalls args := by
  cases h with
  | launcher h =>
    obtain ⟨h', hcalls⟩ := sweepAt_step hreps h hs
    exact ⟨.launcher h', by rw [h'.treeCalls, h.treeCalls]; exact hcalls⟩
  | child k np r h =>
    obtain ⟨role', p', rfl, h', hcalls⟩ := h.successor hs
    exact ⟨.child k np r h', by rw [h'.treeCalls, h.treeCalls]; exact hcalls⟩

/-- A step of `run_trial` that neither forks nor waits leaves the forks of the launcher. -/
theorem OnPath.forksLeft (h : OnPath c p) (hf : TrialFlow n p p') : p'.forksLeft = p.forksLeft := by
  cases hf with
  | testChild hp =>
    rcases hp with ⟨h, start, rfl⟩ | ⟨start, rfl⟩ <;> cases c <;>
      first | exact (h rfl).elim | exact h.elim
  | hackbenchChild | interuptHackbenchChild =>
    cases c <;> first | exact (h rfl).elim | exact h.elim
  | execFailed => cases c <;> exact h.elim
  | _ => rfl

/-- A call of the launcher that neither forks nor waits leaves what comes from it: at the first
control point of a trial, both forks of that trial are left. -/
theorem SweepAt.spread_goes (hreps : IsInt args.reps) (h : SweepAt c args l)
    (hg : Goes n ret (c.main args l) l') : l'.spread args = l.spread args := by
  have hs : Successor (c.main args) l l' := .goes hg
  rw [h.spread, (sweepAt_step hreps h hs).1.spread, trialsLeft_successor hreps h hs,
    List.length_append]
  suffices hforks : l'.forksLeft = l.forksLeft + 2 * l'.enters.toList.length by omega
  cases l with
  | begin =>
    rw [hs.eq_of_print (main_begin c args)]
    rfl
  | pairs k np =>
    rw [hs.eq_of_skip (main_pairs c args k np)]
    split <;> rfl
  | reps k np r =>
    rcases lt_or_ge r args.reps with hlt | hle
    · rw [hs.eq_of_print (main_reps_of_lt c hlt)]
      cases c <;> rfl
    · rw [hs.eq_of_skip (main_reps_of_le c hle h.1.isInt_next)]
      rfl
  | trial k np r p =>
    cases main_flow hg with
    | rep => rfl
    | run _ _ _ hf =>
      rw [enters_of_lt ((h.2.2.flow hf).2.trans_le p.callsLeft_le)]
      exact h.2.2.forksLeft hf
  | done => exact absurd (main_done c args) hs.ne_exit

/-- A fork shares what comes from the launcher. -/
theorem ForksAt.shares (hf : ForksAt l k role f) (h0 : pid ≠ 0) :
    (f pid).spread args + (f 0).spread args = l.spread args := by
  have hpid : (pid == 0) = false := beq_false_of_ne h0
  cases hf <;>
    simp only [Point.spread, Point.isChild, TrialPoint.isChild, hpid, Point.forksLeft,
      TrialPoint.forksLeft, Point.trialsLeft, beq_self_eq_true, if_true, Bool.false_eq_true,
      if_false] <;> omega

/-- Where the launcher waits nothing comes from it in its trial. -/
theorem WaitsAt.spread (hw : WaitsAt l f) : (f pid).spread args = l.spread args := by
  cases hw <;> rfl

/-- The processes of a C++ launcher spread so. -/
theorem main_spreads (c : Program) (hreps : IsInt args.reps) :
    Spreads (c.main args) (TreeAt c args) (Point.treeCalls args) (Point.spread args) where
  pos := by
    intro l _
    unfold Point.spread
    split <;> omega
  defined h := by
    cases h with
    | launcher h => exact sweepAt_defined hreps h
    | child k np r h => exact h.defined
  step := treeAt_step hreps
  child := by
    intro l f h hc
    obtain ⟨k, np, r, role, p, hforks, h0, hb⟩ := branch_of_fork hc
    cases h with
    | launcher h =>
      refine ⟨h0 ▸ .child k np r hb, ?_⟩
      obtain ⟨n, role', hf⟩ := main_fork hc
      have hborn : (f 0).childCalls ≤ 2 := ((shortChildren c args).born hc).2
      have hleft : 2 < l.callsLeft args := by
        cases hf <;> simp only [Point.callsLeft, TrialPoint.callsLeft] <;> omega
      rw [h.treeCalls, h0, hb.treeCalls, ← h0]
      exact hborn.trans_lt hleft
    | child k np r h => exact absurd hc h.not_fork
  goes h hg := by
    cases h with
    | launcher h => exact h.spread_goes hreps hg
    | child k np r h =>
      obtain ⟨role', p', rfl, h'⟩ := h.goes hg
      rw [h.spread, h'.spread]
  shares _ hc h0 := by
    obtain ⟨n, role, hf⟩ := main_fork hc
    exact hf.shares h0
  waits _ hc := (main_wait hc).spread
  ends h hc := by
    cases h with
    | launcher h =>
      obtain ⟨rfl, -⟩ := h.leaves hreps (fun _ => rfl) (show Leaves 0 0 (c.main args _) _ by
        rw [hc]
        exact .exit _)
      rfl
    | child k np r h => exact h.spread

end

/-- The processes of a C++ launcher die out, and are at most `1 + 2 * n`. -/
theorem main_diesOut (c : Program) (args : Args) (hints : args.AreInts) (hfits : args.SweepFits) :
    DiesOut (c.main args) start (1 + 2 * (requestedTrials args).length) := by
  have hat : SweepAt c args .begin := ⟨hints.groupsLowerBound, hfits⟩
  exact (main_spreads c hints.reps).diesOut (by decide) (.launcher hat)

end Launcher
