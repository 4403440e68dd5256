import SchedulerComparison.Launcher.Steady
import SchedulerComparison.Launcher.Sweep
import SchedulerComparison.Lib.Work

/-!
# The C++ launchers complete

`sweep_finishes`: in the runs in which hackbench runs until it is signalled (`Steady`), a launcher
whose sweep fits into `int`s never waits for something that cannot happen, comes to its end after a
bounded number of events of all processes together, and has then measured the trials that were asked
for, in their order, and printed exactly `output`: the line of the arguments and, for each trial,
its line of pairs and repetition, what `launcher.cpp` says while hackbench warms up, the measured
time for the file, if there is one, and the measured time. No child is left. What the test programs
do, and in which order the processes go on, makes no difference.

The bound on all events is `Plan.run_length_le` with the sweep as the plan. `Ledger` says how what
was measured and printed and what is still to come make up the whole.
-/

open Posix Posix.Sys Transition

namespace Launcher

/-- The trial, pairs and repetition, and the time that `run_prog` returns for it, or the same lines
of `hackbench_interupt.cpp`. -/
def Point.measures : Point → Option ((Int × Int) × Nat)
  | .trial _ np r (.tidy _ start _ _ finish) => some ((np, r), finish - start)
  | _ => none

/-- The trials that were measured, in order, with their times. -/
abbrev measured (s : Procs) : List ((Int × Int) × Nat) := s.entered Point.measures launcherPid

/-- What is printed before a trial's test program runs. -/
def Program.startLines : Program → Args → Int × Int → List Out
  | .launcher _, args, (np, r) => [.pairCount np args.coreToPinTo r, .letting]
  | .interupt, args, (np, r) => [.pairCount np args.coreToPinTo r]

/-- The line for the file. -/
def fileLine (args : Args) (time : Nat) : List Out := if args.fileValid then [.file time] else []

/-- The lines of a trial. -/
def trialOutput (c : Program) (args : Args) (result : (Int × Int) × Nat) : List Out :=
  c.startLines args result.1 ++ fileLine args result.2 ++ [.cout result.2]

/-- The lines of a run that measured `results`. -/
def output (c : Program) (args : Args) (results : List ((Int × Int) × Nat)) : List Out :=
  .runningWith args :: results.flatMap (trialOutput c args)

/-- The launcher has exited with `0`, has measured the trials that were asked for and printed their
lines, and has waited for all its children. -/
structure Finished (c : Program) (args : Args) (s : Procs) : Prop where
  exited : ∃ P t, s.procs.lookup launcherPid = some P ∧ P.life = .zombie none (.exited 0) t
  trials : (measured s).map Prod.fst = requestedTrials args
  printed : s.printedBy launcherPid = output c args (measured s)
  unreaped : s.unreaped launcherPid = ∅

/-- The runs of a launcher end: the number of events of processes in a run is bounded, in a steady
run some process can go on as long as the launcher is in its program, and then the launcher has
finished. -/
structure Finishes (c : Program) (args : Args) : Prop where
  bounded : ∃ n, ∀ es s, exec (Sys.step (c.main args)) Free start es = some s →
    es.countP Event.moves ≤ n
  goesOn : ∀ s l, Reach (Sys.step (c.main args)) Steady start s → LauncherAt s l →
    ∃ e s', e.moves = true ∧ Steady s e ∧ s.step (c.main args) e = some s'
  done : ∀ s, Reach (Sys.step (c.main args)) Steady start s →
    s.point? launcherPid = none → Finished c args s

section
variable {c : Program} {args : Args} {s s' : Procs} {k : Nat} {np r ret : Int}
  {role : Role} {e : Event} {p : TrialPoint} {l l' : Point}

/-! ## The children are short -/

/-- The calls that a child still makes, at most. -/
def Point.childCalls : Point → Nat
  | .trial _ _ _ .exitFailed => 0
  | .trial _ _ _ .execTestProg => 1
  | _ => 2

theorem childCalls_lt {n : Nat} (h : ChildPoint l) (hf : Flow n l l') :
    l'.childCalls < l.childCalls := by
  cases h with
  | trial k np r hp =>
    cases hf with
    | rep => cases hp
    | run _ _ _ hf =>
      cases hf with
      | letting _ h0 | testProc _ _ _ h0 | interuptTestProc _ _ h0 | interuptHackbench _ _ _ h0 =>
        cases hp; exact absurd rfl h0
      | hackbenchChild | interuptHackbenchChild => exact Nat.two_pos
      | execFailed => exact Nat.one_pos
      | testChild hp₀ hp' =>
        rcases hp₀ with ⟨h, start, rfl⟩ | ⟨start, rfl⟩ <;> rcases hp' with rfl | rfl <;>
          simp only [Point.childCalls] <;> decide
      | _ => cases hp

/-- A child neither forks nor waits, and makes at most two calls before it leaves the program. -/
theorem shortChildren (c : Program) (args : Args) :
    ShortChildren (c.main args) ChildPoint Point.childCalls 2 where
  goes hl hg := ⟨hl.flow (main_flow hg), childCalls_lt hl (main_flow hg)⟩
  not_fork hl hc := by
    obtain ⟨n, role, hf⟩ := main_fork hc
    exact hl.not_fork hf
  not_wait hl hc := hl.not_wait (main_wait hc)
  born hc := by
    obtain ⟨n, role, hf⟩ := main_fork hc
    exact ⟨hf.child, by cases hf <;> exact le_refl 2⟩

/-! ## What is measured and printed -/

/-- `run_trial` has measured its trial. -/
def TrialPoint.isMeasured : TrialPoint → Bool
  | .compare .. | .coutTime .. | .kill _ => true
  | .waitHackbench _ | .hackbenchWaited .. | .returned => true
  | _ => false

/-- The trial that the launcher is in and has not measured yet. -/
def Point.current : Point → List (Int × Int)
  | .trial _ np r p => if p.isMeasured then [] else [(np, r)]
  | _ => []

/-- The trial that was measured and whose lines are not all printed yet. -/
def Point.pending : Point → List ((Int × Int) × Nat)
  | .trial _ np r (.compare _ start _ _ finish) => [((np, r), finish - start)]
  | .trial _ np r (.coutTime _ time) => [((np, r), time)]
  | _ => []

/-- The lines of the trial that the launcher is in that are printed, as long as not all are. -/
def Point.told (c : Program) (args : Args) : Point → List Out
  | .trial _ np r .forkHackbench | .trial _ np r (.hackbenchForked _) =>
    [.pairCount np args.coreToPinTo r]
  | .trial _ np r (.coutTime _ time) => c.startLines args (np, r) ++ fileLine args time
  | .trial _ _ _ (.kill _) | .trial _ _ _ (.waitHackbench _) | .trial _ _ _ (.hackbenchWaited ..)
  | .trial _ _ _ .returned => []
  | .trial _ np r _ => c.startLines args (np, r)
  | _ => []

/-- The line that is printed before the first trial, when it is still to come. -/
def Point.ahead (args : Args) : Point → List Out
  | .begin => [.runningWith args]
  | _ => []

/-- What was printed and measured when the launcher is at a control point. -/
structure Ledger (c : Program) (args : Args) (l : Point) (lines : List Out)
    (results : List ((Int × Int) × Nat)) : Prop where
  trials : results.map Prod.fst ++ l.current ++ l.trialsLeft args = requestedTrials args
  lines : ∃ told, results = told ++ l.pending ∧
    lines ++ l.ahead args = output c args told ++ l.told c args

/-- What a call of the launcher measures and prints, when both waits of the trial return what is
expected: `told` are the trials whose lines it completes. -/
structure Entry (c : Program) (args : Args) (l l' : Point) : Prop where
  trials : l.current ++ l'.enters.toList = l.measures.toList.map Prod.fst ++ l'.current
  ahead : l'.ahead args = []
  lines : ∃ told, l.pending ++ l.measures.toList = told ++ l'.pending ∧
    l.told c args ++ (c.main args l).prints.toList =
      told.flatMap (trialOutput c args) ++ l'.told c args

/-- A call of `run_trial` that neither forks nor waits. -/
theorem entry_flow {n : Nat} {p' : TrialPoint} (h : OnPath c p) (hk : TrialKept s p)
    (hf : TrialFlow n p p') : Entry c args (.trial k np r p) (.trial k np r p') := by
  cases hf with
  | letting h₀ h0 =>
    cases c with
    | launcher testProg =>
      refine ⟨rfl, rfl, [], rfl, ?_⟩
      simp only [Program.main, main, sweep, runTrial, if_neg h0]
      rfl
    | interupt => exact h.elim
  | testProc h₀ start t h0 | interuptTestProc start t h0 | interuptHackbench start t h₀ h0 =>
    refine ⟨by cases c <;> first | exact h.elim | rfl, rfl, [], rfl, ?_⟩
    cases c <;> first
      | exact h.elim
      | simp only [Program.main, main, interuptMain, sweep, runTrial, interuptRunTrial, if_neg h0]
        exact List.append_nil _
  | tidy h₀ start t w finish => exact ⟨rfl, rfl, [], rfl, by cases c <;> exact List.append_nil _⟩
  | record h₀ start t finish =>
    refine ⟨rfl, rfl, [], rfl, ?_⟩
    rw [main_compare]
    simp only [Point.told, fileLine]
    split
    · rfl
    · rfl
  | cout h₀ time =>
    refine ⟨rfl, rfl, [((np, r), time)], rfl, ?_⟩
    rw [List.flatMap_singleton, trialOutput]
    cases c <;> exact (List.append_nil _).symm
  | waitError h₀ start t w finish hw => exact absurd hk.2 hw
  | done h₀ w =>
    obtain rfl : w = h₀ := hk
    refine ⟨rfl, rfl, [], rfl, ?_⟩
    cases c <;> simp only [Program.main, main, interuptMain, sweep, runTrial, interuptRunTrial,
      trialTail, ne_eq, not_true_eq_false, if_false] <;> rfl
  | hackbenchChild | interuptHackbenchChild =>
    cases c <;> first | exact absurd rfl h | exact h.elim
  | testChild hp =>
    rcases hp with ⟨h₀, start, rfl⟩ | ⟨start, rfl⟩ <;> cases c <;>
      first | exact absurd rfl h | exact h.elim
  | execFailed => cases c <;> exact h.elim
  | warmUp | prepare | start | interuptPrepare | interuptStart | finish | kill =>
    cases c <;> first | exact h.elim | exact ⟨rfl, rfl, [], rfl, rfl⟩

/-- A call of `run_trial`. -/
theorem entry_trial (h : OnPath c p) (hk : TrialKept s p) (hp : p ≠ .returned)
    (hs : Successor (c.main args) (.trial k np r p) l') :
    Entry c args (.trial k np r p) l' := by
  cases hs with
  | goes hg =>
    cases main_flow hg with
    | rep => exact absurd rfl hp
    | run _ _ _ hf => exact entry_flow h hk hf
  | fork hc h0 hl =>
    obtain ⟨n, role, hf⟩ := main_fork hc
    subst hl
    cases hf <;> cases c <;> first | exact h.elim | exact ⟨rfl, rfl, [], rfl, rfl⟩
  | wait hc hl =>
    subst hl
    cases main_wait hc <;> cases c <;> exact ⟨rfl, rfl, [], rfl, rfl⟩

/-- A call of the launcher behind the first line. -/
theorem entry_successor (hreps : IsInt args.reps) (hl : l ≠ .begin) (h : SweepAt c args l)
    (hk : KeptAt s l) (hs : Successor (c.main args) l l') : Entry c args l l' := by
  cases l with
  | begin => exact absurd rfl hl
  | pairs k np =>
    have hskip := main_pairs c args k np
    rw [hs.eq_of_skip hskip]
    split <;> exact ⟨rfl, rfl, [], rfl, by rw [hskip]; rfl⟩
  | reps k np r =>
    rcases lt_or_ge r args.reps with hlt | hle
    · have hprint : c.main args (.reps k np r) = _ := main_reps_of_lt c hlt
      rw [hs.eq_of_print hprint]
      cases c <;> exact ⟨rfl, rfl, [], rfl, by rw [hprint]; rfl⟩
    · have hskip := main_reps_of_le (k := k) c hle h.1.isInt_next
      rw [hs.eq_of_skip hskip]
      exact ⟨rfl, rfl, [], rfl, by rw [hskip]; rfl⟩
  | trial k np r p =>
    obtain ⟨-, ⟨h0, hlt⟩, hpath⟩ := h
    by_cases hp : p = .returned
    · subst hp
      have hskip := @main_returned args k np r c ⟨by omega, by have := hreps.2; omega⟩
      rw [hs.eq_of_skip hskip]
      exact ⟨rfl, rfl, [], rfl, by rw [hskip]; rfl⟩
    · exact entry_trial hpath hk hp hs
  | done => exact absurd (main_done c args) hs.ne_exit

/-- A call of the launcher keeps the ledger. -/
theorem Ledger.step {lines : List Out} {results : List ((Int × Int) × Nat)}
    (hreps : IsInt args.reps) (h : SweepAt c args l) (hk : KeptAt s l)
    (hs : Successor (c.main args) l l') (hled : Ledger c args l lines results) :
    Ledger c args l' (lines ++ (c.main args l).prints.toList)
      (results ++ l.measures.toList) := by
  obtain ⟨htrials, told, rfl, hlines⟩ := hled
  have hleft := trialsLeft_successor hreps h hs
  by_cases hl : l = .begin
  · subst hl
    rw [hs.eq_of_print (main_begin c args), main_begin]
    refine ⟨?_, told, List.append_nil _, ?_⟩
    · rw [← htrials]
      simp only [Point.measures, Option.toList_none, List.append_nil]
      rfl
    · rw [List.append_assoc]
      exact hlines
  · obtain ⟨hcur, hahead', new, hnew, hout⟩ := entry_successor hreps hl h hk hs
    refine ⟨?_, told ++ new, ?_, ?_⟩
    · rw [← htrials, hleft, List.map_append, List.append_assoc _ _ l'.current, ← hcur]
      simp only [List.append_assoc]
    · rw [List.append_assoc, hnew, List.append_assoc]
    · have hahead : l.ahead args = [] := by cases l <;> first | rfl | exact absurd rfl hl
      rw [hahead, List.append_nil] at hlines
      rw [hahead', List.append_nil, hlines, List.append_assoc, hout, output, output,
        List.flatMap_append]
      simp only [List.cons_append, List.append_assoc]

/-! ## The end -/

/-- From the first `wait` on, the launcher leaves `run_trial` by its return only, when nothing
throws. -/
theorem trialTail_not_leaves {testProg : Image} {useOut : Bool} {x : Life Point Image} {n : Nat}
    (hexec : p ≠ .execTestProg) (hexit : p ≠ .exitFailed)
    (hret : (Point.trial k np r p).throws = true → ret = 0) :
    ¬ Leaves n ret ((trialTail testProg useOut p).map (.trial k np r)) x := by
  cases p with
  | execTestProg => exact absurd rfl hexec
  | exitFailed => exact absurd rfl hexit
  | tidy =>
    intro hx
    cases hx with
    | throws _ hne => exact hne (hret rfl)
  | compare =>
    simp only [trialTail]
    split
    · intro hx; cases hx
    · split <;> intro hx <;> cases hx
  | hackbenchWaited =>
    simp only [trialTail]
    split <;> intro hx <;> cases hx
  | _ => intro hx; cases hx

/-- In a trial the launcher does not leave the program when nothing throws. -/
theorem OnPath.not_leaves {x : Life Point Image} {n : Nat} (h : OnPath c p) (hp : p ≠ .returned)
    (hret : (Point.trial k np r p).throws = true → ret = 0) :
    ¬ Leaves n ret (c.main args (.trial k np r p)) x := by
  cases c with
  | launcher testProg =>
    show ¬ Leaves n ret (sweep args .forkHackbench (runTrial testProg args) (.trial k np r p)) x
    rw [sweep.eq_5 _ _ _ _ _ _ _ hp]
    cases p with
    | hackbenchForked | testProcForked =>
      simp only [runTrial, if_neg h]
      intro hx
      cases hx
    | forkHackbench | warmUp | runProg | forkTestProc =>
      intro hx
      cases hx
    | prepare =>
      intro hx
      cases hx with
      | throws _ hne => exact hne (hret rfl)
    | interuptPrepare | interuptStart | interuptForkTestProc | interuptTestProcForked
    | interuptForkHackbench | interuptHackbenchForked | execTestProg | exitFailed => exact h.elim
    | _ =>
      simp only [runTrial]
      exact trialTail_not_leaves (by rintro ⟨⟩) (by rintro ⟨⟩) hret
  | interupt =>
    show ¬ Leaves n ret (sweep args .interuptPrepare (interuptRunTrial args) (.trial k np r p)) x
    rw [sweep.eq_5 _ _ _ _ _ _ _ hp]
    cases p with
    | interuptTestProcForked | interuptHackbenchForked =>
      simp only [interuptRunTrial, if_neg h]
      intro hx
      cases hx
    | interuptStart | interuptForkTestProc | interuptForkHackbench =>
      intro hx
      cases hx
    | interuptPrepare =>
      intro hx
      cases hx with
      | throws _ hne => exact hne (hret rfl)
    | forkHackbench | hackbenchForked | warmUp | prepare | runProg | forkTestProc | testProcForked
    | execTestProg | exitFailed => exact h.elim
    | _ =>
      simp only [interuptRunTrial]
      exact trialTail_not_leaves (by rintro ⟨⟩) (by rintro ⟨⟩) hret

/-- When nothing throws, the launcher leaves the program behind its sweep, with status `0`. -/
theorem SweepAt.leaves {x : Life Point Image} {n : Nat} (hreps : IsInt args.reps)
    (h : SweepAt c args l) (hret : l.throws = true → ret = 0)
    (hx : Leaves n ret (c.main args l) x) : l = .done ∧ x = .zombie none (.exited 0) n := by
  cases l with
  | begin =>
    rw [main_begin] at hx
    cases hx
  | pairs k np =>
    rw [main_pairs] at hx
    cases hx
  | reps k np r =>
    rcases lt_or_ge r args.reps with hlt | hle
    · rw [main_reps_of_lt c hlt] at hx
      cases hx
    · rw [main_reps_of_le c hle h.1.isInt_next] at hx
      cases hx
  | trial k np r p =>
    by_cases hp : p = .returned
    · subst hp
      obtain ⟨-, ⟨h0, hlt⟩, -⟩ := h
      rw [main_returned c ⟨by omega, by have := hreps.2; omega⟩] at hx
      cases hx
    · exact absurd hx (h.2.2.not_leaves hp hret)
  | done =>
    rw [main_done] at hx
    cases hx
    exact ⟨rfl, rfl⟩

/-- The ledger is kept, and a launcher that has left its program has finished. -/
structure Accounted (c : Program) (args : Args) (s : Procs) : Prop where
  ledger : ∀ l, s.point? launcherPid = some l →
    Ledger c args l (s.printedBy launcherPid) (measured s)
  done : s.point? launcherPid = none → Finished c args s

/-- What the launcher has printed and measured changes by its own calls only. -/
theorem step_printed_measured (hs : s.step (c.main args) e = some s') :
    (s'.printedBy launcherPid = s.printedBy launcherPid ∧ measured s' = measured s ∧
        ∀ ret, e ≠ .call launcherPid ret) ∨
      ∃ ret l, e = .call launcherPid ret ∧ s.point? launcherPid = some l ∧
        s'.printedBy launcherPid = s.printedBy launcherPid ++ (c.main args l).prints.toList ∧
        measured s' = measured s ++ l.measures.toList := by
  rcases step_printedBy hs launcherPid with ⟨hprinted, hne⟩ | ⟨ret, l, rfl, hl, hprinted⟩ <;>
    rcases step_entered Point.measures hs launcherPid with
      ⟨hmeas, hne'⟩ | ⟨ret', l', heq, hl', hmeas⟩
  · exact .inl ⟨hprinted, hmeas, hne⟩
  · exact absurd heq (hne ret')
  · exact absurd rfl (hne' ret)
  · cases hl.symm.trans hl'
    exact .inr ⟨ret, l, rfl, hl, hprinted, hmeas⟩

/-- Nobody signals the launcher. -/
theorem Kept.not_pending (hk : Kept c s) {P : Proc Point Image} : ¬ s.Pending launcherPid P := by
  rintro ⟨κ, hκ, hh, -⟩
  obtain ⟨k, Q, o, hQ, hppid, -⟩ := hk.kills κ hκ
  exact hk.ne_launcher hQ hppid (hk.target_eq hκ hh)

/-- The launcher leaves its program by the `exit(0)` behind its sweep. -/
theorem finished_of_departs (hk : Kept c s) (hC : Steady s e) (hreps : IsInt args.reps)
    (hat : SweepAt c args l) (h : Accounted c args s) (hs : s.step (c.main args) e = some s')
    (hl : s.point? launcherPid = some l) (hnone : s'.point? launcherPid = none) :
    Finished c args s' := by
  rcases step_departs hs hl hnone with ⟨ret, x, P, rfl, hx, hP', hu⟩ | ⟨P, -, hpend⟩
  · have hret : l.throws = true → ret = 0 := fun hthrows => hC.2 (by rw [hl]; exact hthrows)
    obtain ⟨rfl, rfl⟩ := hat.leaves hreps hret hx
    obtain ⟨htrials, told, htold, hlines⟩ := h.ledger _ hl
    have htold : measured s = told := htold.trans (List.append_nil told)
    rcases step_printed_measured hs with ⟨-, -, hne⟩ | ⟨ret', l, -, hl', hprinted, hmeas⟩
    · exact absurd rfl (hne ret)
    cases hl.symm.trans hl'
    rw [main_done] at hprinted
    have hprinted : s'.printedBy launcherPid = s.printedBy launcherPid :=
      hprinted.trans (List.append_nil _)
    have hmeas : measured s' = measured s := hmeas.trans (List.append_nil _)
    refine ⟨⟨_, s.clock, hP', rfl⟩, ?_, ?_, ?_⟩
    · rw [hmeas, ← htrials]
      simp only [Point.current, Point.trialsLeft, List.append_nil]
    · rw [hprinted, hmeas, htold]
      simpa only [Point.ahead, Point.told, List.append_nil] using hlines
    · exact Set.subset_empty_iff.1 (hu ▸ hk.owned _ (point?_eq_some.1 hl))
  · exact absurd hpend hk.not_pending

/-- A launcher that has finished stays so, whatever the other processes do. -/
theorem Finished.step (hk : Kept c s) (h : Finished c args s)
    (hs : s.step (c.main args) e = some s') : Finished c args s' := by
  obtain ⟨P, t, hP, hlife⟩ := h.exited
  have hpid : e.pid ≠ launcherPid := by
    intro he
    cases hm : e.moves with
    | false =>
      cases e with
      | pass => cases he
      | _ => cases hm
    | true =>
      obtain ⟨P', hP', hr⟩ := running_of_moves hs hm
      cases hP.symm.trans (he ▸ hP')
      rw [hlife] at hr
      cases hr
  have hnone : s.point? launcherPid = none := by rw [point?, hP, Option.bind_some, hlife]; rfl
  obtain ⟨hprinted, hmeas⟩ : s'.printedBy launcherPid = s.printedBy launcherPid ∧
      measured s' = measured s := by
    rcases step_printed_measured hs with ⟨hprinted, hmeas, -⟩ | ⟨_, _, -, hl, -⟩
    · exact ⟨hprinted, hmeas⟩
    · cases hnone.symm.trans hl
  refine ⟨⟨P, t, ?_, hlife⟩, hmeas ▸ h.trials, by rw [hprinted, hmeas, h.printed],
    (step_unreaped_of_ne hs hpid).trans h.unreaped⟩
  cases step_change hs with
  | pass hprocs => exact hprocs ▸ hP
  | own _ _ _ _ ho => exact (ho _ hpid.symm).trans hP
  | @fork _ _ _ q _ _ _ hq _ _ _ _ ho =>
    have hne : launcherPid ≠ q := by rintro rfl; cases hP.symm.trans hq
    exact (ho _ hpid.symm hne).trans hP
  | @wait _ _ q _ _ _ _ _ hp _ _ hq _ _ ho =>
    have hne : launcherPid ≠ q := by
      rintro rfl
      have hzero : e.pid = 0 := hk.root _ hq
      exact absurd (hk.positive _ _ hp) (by omega)
    exact (ho _ hpid.symm hne).trans hP

/-- Every step of a steady run keeps the ledger. -/
theorem accounted_step (hk : Kept c s) (hC : Steady s e) (hreps : IsInt args.reps)
    (hat : ∀ l, s.point? launcherPid = some l → SweepAt c args l) (h : Accounted c args s)
    (hs : s.step (c.main args) e = some s') : Accounted c args s' := by
  obtain ⟨P, hP⟩ := Option.isSome_iff_exists.1 hk.inv.present
  refine ⟨fun l' hl' => ?_, fun hnone => ?_⟩
  · rcases step_printed_measured hs with ⟨hprinted, hmeas, hne⟩ | ⟨ret, l, rfl, hl, hprinted, hmeas⟩
    · rcases step_successor hs hP hl' with ⟨-, hl⟩ | ⟨ret, _, he, -⟩
      · rw [hprinted, hmeas]
        exact h.ledger l' hl
      · exact absurd he (hne ret)
    · rcases step_successor hs hP hl' with ⟨hne, -⟩ | ⟨-, l₀, -, hl₀, hsucc⟩
      · exact absurd rfl (hne ret)
      · cases hl.symm.trans hl₀
        rw [hprinted, hmeas]
        exact (h.ledger l hl).step hreps (hat l hl) (hk.at_ l (point?_eq_some.1 hl)) hsucc
  · cases hl : s.point? launcherPid with
    | some l => exact finished_of_departs hk hC hreps (hat l hl) h hs hl hnone
    | none => exact (h.done hl).step hk hs

/-- In a steady run the ledger is kept. -/
theorem reach_accounted (hints : args.AreInts) (hfits : args.SweepFits)
    (hr : Reach (Sys.step (c.main args)) Steady start s) :
    Kept c s ∧ (∀ l, s.point? launcherPid = some l → SweepAt c args l) ∧ Accounted c args s := by
  let plan := sweepPlan c args hints.reps
  have h₀ : plan.at_ .begin := ⟨hints.groupsLowerBound, hfits⟩
  have hinv : Kept c s ∧ plan.Inv launcherPid (plan.todo .begin) s ∧ Accounted c args s := by
    refine hr.invariant (I := fun s => Kept c s ∧
      plan.Inv launcherPid (plan.todo .begin) s ∧ Accounted c args s)
      ⟨kept_start c, plan.inv_init h₀, fun l hl => ?_, fun hnone => ?_⟩
      fun _ _ _ ⟨hk, hi, hp⟩ hC hs => ⟨kept_step hk hC hs, plan.inv_step hi hs,
        accounted_step hk hC hints.reps hi.at_ hp hs⟩
    · cases hl
      exact ⟨rfl, [], rfl, rfl⟩
    · cases hnone
  exact ⟨hinv.1, hinv.2.1.at_, hinv.2.2⟩

/-- A launcher whose sweep fits into `int`s finishes when hackbench runs until it is signalled. -/
theorem sweep_finishes (c : Program) (args : Args) (hints : args.AreInts)
    (hfits : args.SweepFits) : Finishes c args where
  bounded := by
    let plan := sweepPlan c args hints.reps
    have h₀ : plan.at_ .begin := ⟨hints.groupsLowerBound, hfits⟩
    exact ⟨_, fun es _ h => plan.run_length_le (shortChildren c args) h₀ es h⟩
  goesOn s l hr hl := by
    obtain ⟨hk, hat, -⟩ := reach_accounted hints hfits hr
    exact hk.goes_on hl (sweepAt_defined hints.reps (hat l (point?_eq_some.2 hl)))
  done s hr := (reach_accounted hints hfits hr).2.2.done

end

/-- `gzip/launcher -g (1,3,1) -r 2 -f out` finishes. -/
theorem sweep_finishes_threePairs :
    Finishes (.launcher gzipProg)
      { groupsUpperBound := 3, reps := 2, fileName := "out", fileValid := true } :=
  sweep_finishes (.launcher gzipProg)
    { groupsUpperBound := 3, reps := 2, fileName := "out", fileValid := true }
    ⟨by decide, by decide, by decide, by decide, by decide⟩ (by decide)

end Launcher
