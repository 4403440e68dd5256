import SchedulerComparison.Launcher.Children
import SchedulerComparison.Launcher.ParseArgs
import SchedulerComparison.Lib.CountedLoop
import SchedulerComparison.Lib.Plan

/-!
# The sweep of the C++ launchers

`main` calls `run_trial` for each number of pairs from the lower to the upper bound and each
repetition. `sweep_performs`: when the loop over the pairs fits into `int`s, the launcher enters
`run_trial` for exactly these, in order, in every run, whatever its children do. It comes to its
end, unless a call that throws ends it before. `lastInt_overflows` and `stepZero_loops` show what
happens otherwise.
-/

open Posix Posix.Sys Transition CountedLoop

namespace Launcher

/-- The trial that `run_trial` is called for, pairs and repetition, at its first control point. -/
def Point.enters : Point → Option (Int × Int)
  | .trial _ numPairs rep .forkHackbench | .trial _ numPairs rep .interuptPrepare =>
    some (numPairs, rep)
  | _ => none

/-- The trials that the arguments ask for: `lo`, `lo + step` and so on up to `hi`, each with the
repetitions `0` to `reps - 1`. -/
def requestedTrials (args : Args) : List (Int × Int) :=
  (values args.groupsLowerBound args.groupsUpperBound args.groupsStepSize).flatMap fun np =>
    (values 0 (args.reps - 1) 1).map fun r => (np, r)

/-- The loop over the pairs fits into `int`s. -/
def Args.SweepFits (args : Args) : Prop :=
  Fits args.groupsLowerBound args.groupsUpperBound args.groupsStepSize

instance (args : Args) : Decidable args.SweepFits := inferInstanceAs (Decidable (Fits _ _ _))

/-! ## A trial -/

/-- The control points of `run_trial` that the launcher itself can be at. -/
def OnPath : Program → TrialPoint → Prop
  | .launcher _, .forkHackbench | .launcher _, .warmUp _ | .launcher _, .prepare _
  | .launcher _, .runProg _ | .launcher _, .forkTestProc _ _ => True
  | .launcher _, .hackbenchForked h => h ≠ 0
  | .launcher _, .testProcForked _ _ t => t ≠ 0
  | .interupt, .interuptPrepare | .interupt, .interuptStart | .interupt, .interuptForkTestProc _
  | .interupt, .interuptForkHackbench _ _ => True
  | .interupt, .interuptTestProcForked _ t => t ≠ 0
  | .interupt, .interuptHackbenchForked _ _ h => h ≠ 0
  | _, .wait _ _ _ | _, .waited _ _ _ _ | _, .tidy _ _ _ _ _ | _, .compare _ _ _ _ _
  | _, .coutTime _ _ | _, .kill _ | _, .waitHackbench _ | _, .hackbenchWaited _ _
  | _, .returned => True
  | _, _ => False

/-- The calls that are left in a trial, at most. -/
def TrialPoint.callsLeft : TrialPoint → Nat
  | .forkHackbench | .interuptPrepare => 15
  | .hackbenchForked _ => 14
  | .warmUp _ | .interuptStart => 13
  | .prepare _ | .interuptForkTestProc _ => 12
  | .runProg _ | .interuptTestProcForked _ _ => 11
  | .forkTestProc _ _ | .interuptForkHackbench _ _ => 10
  | .testProcForked _ _ _ | .interuptHackbenchForked _ _ _ => 9
  | .wait _ _ _ => 8
  | .waited _ _ _ _ => 7
  | .tidy _ _ _ _ _ => 6
  | .compare _ _ _ _ _ => 5
  | .coutTime _ _ => 4
  | .kill _ => 3
  | .waitHackbench _ => 2
  | .hackbenchWaited _ _ => 1
  | .returned | .execTestProg | .exitFailed => 0

section
variable {c : Program} {args : Args} {k : Nat} {np r : Int} {p : TrialPoint} {l' : Point}

/-- A step of `run_trial` that neither forks nor waits keeps the launcher on its path. -/
theorem OnPath.flow {n : Nat} {p' : TrialPoint} (h : OnPath c p) (hf : TrialFlow n p p') :
    OnPath c p' ∧ p'.callsLeft < p.callsLeft := by
  cases hf with
  | testChild hp =>
    rcases hp with ⟨h, start, rfl⟩ | ⟨start, rfl⟩ <;> cases c <;>
      first | exact (h rfl).elim | exact h.elim
  | hackbenchChild | interuptHackbenchChild =>
    cases c <;> first | exact (h rfl).elim | exact h.elim
  | execFailed => cases c <;> exact h.elim
  | _ => cases c <;> first | exact h.elim | exact ⟨trivial, by simp [TrialPoint.callsLeft]⟩

/-- A call of the launcher takes it on in the trial. -/
theorem OnPath.successor (h : OnPath c p) (hp : p ≠ .returned)
    (hs : Successor (c.main args) (.trial k np r p) l') :
    ∃ p', l' = .trial k np r p' ∧ OnPath c p' ∧ p'.callsLeft < p.callsLeft := by
  cases hs with
  | goes hg =>
    cases main_flow hg with
    | rep => exact absurd rfl hp
    | run _ _ _ hf => exact ⟨_, rfl, h.flow hf⟩
  | fork hc h0 hl =>
    obtain ⟨n, role, hf⟩ := main_fork hc
    subst hl
    cases hf <;> cases c <;>
      first | exact h.elim | exact ⟨_, rfl, h0, by simp [TrialPoint.callsLeft]⟩
  | wait hc hl =>
    subst hl
    cases main_wait hc <;> exact ⟨_, rfl, by cases c <;> trivial, by simp [TrialPoint.callsLeft]⟩

theorem TrialPoint.callsLeft_le (p : TrialPoint) : p.callsLeft ≤ 15 := by
  cases p <;> simp [TrialPoint.callsLeft]

/-- Behind its first control point `run_trial` is not entered again. -/
theorem enters_of_lt (h : p.callsLeft < 15) : (Point.trial k np r p).enters = none := by
  cases p <;> first | rfl | simp [TrialPoint.callsLeft] at h

theorem map_ne_undefined {L M : Type} {f : L → M} {call : Call L Image Out}
    (h : call ≠ .undefined) : call.map f ≠ .undefined := by
  cases call with
  | undefined => exact absurd rfl h
  | _ => nofun

theorem pinTestProc_ne_undefined (args : Args) : pinTestProc args ≠ .undefined := by
  unfold pinTestProc
  split <;> rintro ⟨⟩

/-- From the first `wait` on, `run_trial` has a call to make. -/
theorem trialTail_ne_undefined (testProg : Image) (useOut : Bool) (hp : p ≠ .returned)
    (hlow : p.callsLeft ≤ 8) : trialTail testProg useOut p ≠ .undefined := by
  cases p with
  | compare =>
    simp only [trialTail]
    split
    · rintro ⟨⟩
    · split <;> rintro ⟨⟩
  | hackbenchWaited =>
    simp only [trialTail]
    split <;> rintro ⟨⟩
  | returned => exact absurd rfl hp
  | wait | waited | tidy | coutTime | kill | waitHackbench | execTestProg | exitFailed => rintro ⟨⟩
  | _ => simp [TrialPoint.callsLeft] at hlow

/-- In a trial the launcher has a call to make. -/
theorem OnPath.ne_undefined (h : OnPath c p) (hp : p ≠ .returned) :
    c.main args (.trial k np r p) ≠ .undefined := by
  cases c with
  | launcher testProg =>
    show sweep args .forkHackbench (runTrial testProg args) (.trial k np r p) ≠ .undefined
    rw [sweep.eq_5 _ _ _ _ _ _ _ hp]
    refine map_ne_undefined ?_
    cases p with
    | hackbenchForked =>
      simp only [runTrial]
      split <;> rintro ⟨⟩
    | testProcForked =>
      simp only [runTrial]
      split
      · exact pinTestProc_ne_undefined args
      · rintro ⟨⟩
    | forkHackbench | warmUp | prepare | runProg | forkTestProc => rintro ⟨⟩
    | interuptPrepare | interuptStart | interuptForkTestProc | interuptTestProcForked
    | interuptForkHackbench | interuptHackbenchForked | execTestProg | exitFailed => exact h.elim
    | _ =>
      exact trialTail_ne_undefined testProg args.fileValid hp (by simp [TrialPoint.callsLeft])
  | interupt =>
    show sweep args .interuptPrepare (interuptRunTrial args) (.trial k np r p) ≠ .undefined
    rw [sweep.eq_5 _ _ _ _ _ _ _ hp]
    refine map_ne_undefined ?_
    cases p with
    | interuptTestProcForked =>
      simp only [interuptRunTrial]
      split
      · exact pinTestProc_ne_undefined args
      · rintro ⟨⟩
    | interuptHackbenchForked =>
      simp only [interuptRunTrial]
      split <;> rintro ⟨⟩
    | interuptPrepare | interuptStart | interuptForkTestProc | interuptForkHackbench => rintro ⟨⟩
    | forkHackbench | hackbenchForked | warmUp | prepare | runProg | forkTestProc | testProcForked
    | execTestProg | exitFailed => exact h.elim
    | _ =>
      exact trialTail_ne_undefined gzipProg args.fileValid hp (by simp [TrialPoint.callsLeft])

end

/-! ## The sweep -/

section
variable {c : Program} {args : Args} {k : Nat} {np r : Int} {p : TrialPoint} {l l' : Point}

/-- The trials of the rest of the loop over the pairs. -/
def pairsLeft (args : Args) (np : Int) : List (Int × Int) :=
  (values np args.groupsUpperBound args.groupsStepSize).flatMap fun np =>
    (values 0 (args.reps - 1) 1).map fun r => (np, r)

/-- The trials of the rest of the loop over the repetitions, and of what follows it. -/
def repsLeft (args : Args) (np r : Int) : List (Int × Int) :=
  (values r (args.reps - 1) 1).map (fun r => (np, r)) ++
    pairsLeft args (np + args.groupsStepSize)

/-- The trials that are still to be entered behind a control point. -/
def Point.trialsLeft (args : Args) : Point → List (Int × Int)
  | .begin => pairsLeft args args.groupsLowerBound
  | .pairs _ np => pairsLeft args np
  | .reps _ np r => repsLeft args np r
  | .trial _ np r _ => repsLeft args np (r + 1)
  | .done => []

/-- The calls of the rest of the loop over the pairs, at most. -/
def pairsCalls (args : Args) (np : Int) : Nat :=
  2 + (values np args.groupsUpperBound args.groupsStepSize).length *
    (2 + (values 0 (args.reps - 1) 1).length * 17)

/-- The calls of the rest of the loop over the repetitions, and of what follows it. -/
def repsCalls (args : Args) (np r : Int) : Nat :=
  1 + (values r (args.reps - 1) 1).length * 17 + pairsCalls args (np + args.groupsStepSize)

/-- The calls that are still to come at a control point, at most. -/
def Point.callsLeft (args : Args) : Point → Nat
  | .begin => 1 + pairsCalls args args.groupsLowerBound
  | .pairs _ np => pairsCalls args np
  | .reps _ np r => repsCalls args np r
  | .trial _ np r p => p.callsLeft + 1 + repsCalls args np (r + 1)
  | .done => 1

/-- A number of pairs of the sweep. -/
abbrev InSweep (args : Args) (np : Int) : Prop :=
  InLoop np args.groupsUpperBound args.groupsStepSize

/-- Where the launcher can be. -/
def SweepAt (c : Program) (args : Args) : Point → Prop
  | .begin => IsInt args.groupsLowerBound ∧ args.SweepFits
  | .pairs _ np => IsInt np ∧ Fits np args.groupsUpperBound args.groupsStepSize
  | .reps _ np r => InSweep args np ∧ 0 ≤ r
  | .trial _ np r p => InSweep args np ∧ (0 ≤ r ∧ r < args.reps) ∧ OnPath c p
  | .done => True

theorem pairsLeft_of_le (h : InSweep args np) : pairsLeft args np = repsLeft args np 0 := by
  rw [pairsLeft, h.values, List.flatMap_cons]
  rfl

theorem repsLeft_of_lt (h : r < args.reps) :
    repsLeft args np r = (np, r) :: repsLeft args np (r + 1) := by
  rw [repsLeft, values_of_le (by omega) (le_refl 1)]
  rfl

theorem repsLeft_of_le (h : args.reps ≤ r) :
    repsLeft args np r = pairsLeft args (np + args.groupsStepSize) := by
  rw [repsLeft, values_of_lt (by omega)]
  rfl

theorem repsCalls_lt_pairsCalls (h : InSweep args np) :
    repsCalls args np 0 < pairsCalls args np := by
  rw [repsCalls, pairsCalls, pairsCalls, h.values, List.length_cons, add_mul]
  omega

theorem repsCalls_of_lt (h : r < args.reps) :
    repsCalls args np (r + 1) + 17 = repsCalls args np r := by
  have hle : r ≤ args.reps - 1 := by omega
  rw [repsCalls, repsCalls, values_of_le hle (le_refl 1), List.length_cons]
  omega

/-! ## The plan of the launcher -/

/-- The first line. -/
theorem main_begin (c : Program) (args : Args) :
    c.main args .begin = .print (.runningWith args) (.pairs 0 args.groupsLowerBound) := by
  cases c <;> rfl

/-- The call at the head of the loop over the pairs. -/
theorem main_pairs (c : Program) (args : Args) (k : Nat) (np : Int) :
    c.main args (.pairs k np) =
      .skip (if np ≤ args.groupsUpperBound then .reps k np 0 else .done) := by
  cases c <;> simp only [Program.main, main, interuptMain, sweep] <;> split <;> rfl

/-- The first control point of `run_trial`. -/
def Program.first : Program → TrialPoint
  | .launcher _ => .forkHackbench
  | .interupt => .interuptPrepare

theorem Program.onPath_first (c : Program) : OnPath c c.first := by
  cases c <;> trivial

theorem Program.callsLeft_first (c : Program) : c.first.callsLeft = 15 := by
  cases c <;> rfl

theorem Program.enters_first (c : Program) (k : Nat) (np r : Int) :
    (Point.trial k np r c.first).enters = some (np, r) := by
  cases c <;> rfl

/-- A repetition that is left is announced. -/
theorem main_reps_of_lt (c : Program) (h : r < args.reps) : c.main args (.reps k np r) =
    .print (.pairCount np args.coreToPinTo r) (.trial k np r c.first) := by
  cases c <;> exact if_pos h

/-- Behind the last repetition the number of pairs is raised. -/
theorem main_reps_of_le (c : Program) (h : args.reps ≤ r)
    (hint : IsInt (np + args.groupsStepSize)) :
    c.main args (.reps k np r) = .skip (.pairs k (np + args.groupsStepSize)) := by
  cases c <;>
    simp only [Program.main, main, interuptMain, sweep, if_neg (Int.not_lt.2 h), if_pos hint]

/-- Behind a trial the repetition is raised. -/
theorem main_returned (c : Program) (hint : IsInt (r + 1)) :
    c.main args (.trial k np r .returned) = .skip (.reps (k + 1) np (r + 1)) := by
  cases c <;> simp only [Program.main, main, interuptMain, sweep, if_pos hint]

theorem main_done (c : Program) (args : Args) : c.main args .done = .exit 0 := by
  cases c <;> rfl

/-- What a call in the sweep does: the launcher stays in it, with fewer calls left. -/
theorem sweepAt_step (hreps : IsInt args.reps) (h : SweepAt c args l)
    (hs : Successor (c.main args) l l') :
    SweepAt c args l' ∧ l'.callsLeft args < l.callsLeft args := by
  cases l with
  | begin =>
    rw [hs.eq_of_print (main_begin c args)]
    exact ⟨h, by simp only [Point.callsLeft]; omega⟩
  | pairs k np =>
    rw [hs.eq_of_skip (main_pairs c args k np)]
    split
    · next hle =>
      have hin : InSweep args np := ⟨h.1, h.2, hle⟩
      exact ⟨⟨hin, le_refl 0⟩, repsCalls_lt_pairsCalls hin⟩
    · exact ⟨trivial, by simp only [Point.callsLeft, pairsCalls]; omega⟩
  | reps k np r =>
    obtain ⟨hin, h0⟩ := h
    rcases lt_or_ge r args.reps with hlt | hle
    · rw [hs.eq_of_print (main_reps_of_lt c hlt)]
      refine ⟨⟨hin, ⟨h0, hlt⟩, c.onPath_first⟩, ?_⟩
      have := @repsCalls_of_lt args np r hlt
      simp only [Point.callsLeft, c.callsLeft_first]
      omega
    · rw [hs.eq_of_skip (main_reps_of_le c hle hin.isInt_next)]
      refine ⟨⟨hin.isInt_next, hin.fits.next hin.le⟩, ?_⟩
      simp only [Point.callsLeft, repsCalls]
      omega
  | trial k np r p =>
    obtain ⟨hin, ⟨h0, hlt⟩, hpath⟩ := h
    by_cases hp : p = .returned
    · subst hp
      have hint : IsInt (r + 1) := ⟨by omega, by have := hreps.2; omega⟩
      rw [hs.eq_of_skip (main_returned c hint)]
      refine ⟨⟨hin, by omega⟩, ?_⟩
      simp only [Point.callsLeft]
      omega
    · obtain ⟨p', rfl, hpath', hcalls⟩ := hpath.successor hp hs
      refine ⟨⟨hin, ⟨h0, hlt⟩, hpath'⟩, ?_⟩
      simp only [Point.callsLeft]
      omega
  | done => exact absurd (main_done c args) hs.ne_exit

/-- No step of the sweep is without a meaning. -/
theorem sweepAt_defined (hreps : IsInt args.reps) (h : SweepAt c args l) :
    c.main args l ≠ .undefined := by
  cases l with
  | begin => rw [main_begin]; nofun
  | pairs k np => rw [main_pairs]; nofun
  | reps k np r =>
    rcases lt_or_ge r args.reps with hlt | hle
    · rw [main_reps_of_lt c hlt]
      nofun
    · rw [main_reps_of_le c hle h.1.isInt_next]
      nofun
  | trial k np r p =>
    by_cases hp : p = .returned
    · subst hp
      obtain ⟨-, ⟨h0, hlt⟩, -⟩ := h
      rw [main_returned c ⟨by omega, by have := hreps.2; omega⟩]
      nofun
    · exact h.2.2.ne_undefined hp
  | done => rw [main_done]; nofun

/-- Along a call, a trial that is entered next is the first of those that are still to come. -/
theorem trialsLeft_successor (hreps : IsInt args.reps) (h : SweepAt c args l)
    (hs : Successor (c.main args) l l') :
    l.trialsLeft args = l'.enters.toList ++ l'.trialsLeft args := by
  cases l with
  | begin =>
    rw [hs.eq_of_print (main_begin c args)]
    rfl
  | pairs k np =>
    rw [hs.eq_of_skip (main_pairs c args k np)]
    split
    · next hle => exact pairsLeft_of_le ⟨h.1, h.2, hle⟩
    · next hlt =>
      simp only [Point.trialsLeft, pairsLeft, values_of_lt (Int.not_le.1 hlt), List.flatMap_nil]
      rfl
  | reps k np r =>
    rcases lt_or_ge r args.reps with hlt | hle
    · rw [hs.eq_of_print (main_reps_of_lt c hlt), c.enters_first]
      exact repsLeft_of_lt hlt
    · rw [hs.eq_of_skip (main_reps_of_le c hle h.1.isInt_next)]
      exact repsLeft_of_le hle
  | trial k np r p =>
    obtain ⟨-, ⟨h0, hlt⟩, hpath⟩ := h
    by_cases hp : p = .returned
    · subst hp
      rw [hs.eq_of_skip (main_returned c ⟨by omega, by have := hreps.2; omega⟩)]
      rfl
    · obtain ⟨p', rfl, -, hcalls⟩ := hpath.successor hp hs
      rw [enters_of_lt (hcalls.trans_le p.callsLeft_le)]
      rfl
  | done => exact absurd (main_done c args) hs.ne_exit

/-- The launcher's plan: the trials that are still to come. -/
def sweepPlan (c : Program) (args : Args) (hreps : IsInt args.reps) :
    Plan (c.main args) Point.enters where
  at_ := SweepAt c args
  rest := Point.trialsLeft args
  bound := Point.callsLeft args
  step := sweepAt_step hreps
  defined := sweepAt_defined hreps
  rest_eq := trialsLeft_successor hreps

end

/-- Where the sweep fits into `int`s, the trials for which the launcher has entered `run_trial` are
the first of those that were asked for, in their order, and all of them when the loops have ended;
no `int` overflows, and the number of the launcher's calls is bounded. -/
theorem sweep_performs (c : Program) (args : Args) (hints : args.AreInts) (hfits : args.SweepFits) :
    Performs (c.main args) start launcherPid Point.enters (requestedTrials args) .done :=
  have h₀ : SweepAt c args .begin := ⟨hints.groupsLowerBound, hfits⟩
  (sweepPlan c args hints.reps).performs h₀ rfl

/-! ## The path -/

section
variable {c : Program} {args : Args} {s s' : Procs} {e : Event} {k : Nat} {np r : Int}
  {p : TrialPoint} {l : Point}

/-- Behind the last repetition the launcher goes to no trial, whatever the arguments are. -/
theorem reps_not_trial (h : args.reps ≤ r) {k' : Nat} {np' r' : Int} :
    ¬ Successor (c.main args) (.reps k np r) (.trial k' np' r' p) := by
  intro hs
  by_cases hint : IsInt (np + args.groupsStepSize)
  · cases hs.eq_of_skip (main_reps_of_le c h hint)
  · refine hs.ne_undefined ?_
    cases c <;>
      simp only [Program.main, main, interuptMain, sweep, if_neg (Int.not_lt.2 h), if_neg hint]

/-- A call takes the launcher into a trial at its first control point, or on in the trial. -/
theorem onPath_of_successor (hl : ∀ k np r p, l = .trial k np r p → OnPath c p)
    (hs : Successor (c.main args) l (.trial k np r p)) : OnPath c p := by
  cases l with
  | begin => cases hs.eq_of_print (main_begin c args)
  | pairs k' np' =>
    have hskip := hs.eq_of_skip (main_pairs c args k' np')
    split at hskip <;> cases hskip
  | reps k' np' r' =>
    rcases lt_or_ge r' args.reps with hlt | hle
    · cases hs.eq_of_print (main_reps_of_lt c hlt)
      exact c.onPath_first
    · exact (reps_not_trial hle hs).elim
  | trial k' np' r' p' =>
    by_cases hp : p' = .returned
    · subst hp
      cases hs with
      | goes hg =>
        cases main_flow hg with
        | run _ _ _ hf => exact ((hl _ _ _ _ rfl).flow hf).1
      | fork hc => obtain ⟨n, role, hf⟩ := main_fork hc; cases hf
      | wait hc => cases main_wait hc
    · obtain ⟨p'', heq, hpath, -⟩ := (hl k' np' r' p' rfl).successor hp hs
      cases heq
      exact hpath
  | done => exact absurd (main_done c args) hs.ne_exit

/-- In its trials the launcher is on its path. -/
def KeepsToPath (c : Program) (s : Procs) : Prop :=
  ∀ k np r p, LauncherAt s (.trial k np r p) → OnPath c p

theorem keepsToPath_start (c : Program) : KeepsToPath c start := by
  rintro k np r p ⟨P, hP, hl⟩
  cases hP
  cases hl

theorem keepsToPath_step (hi : Inv s) (hk : KeepsToPath c s)
    (hs : s.step (c.main args) e = some s') : KeepsToPath c s' := by
  intro k np r p hl
  obtain ⟨P, hP⟩ := Option.isSome_iff_exists.1 hi.present
  rcases step_successor hs hP (point?_eq_some.2 hl) with ⟨-, hl⟩ | ⟨-, l, -, hl, hsucc⟩
  · exact hk k np r p (point?_eq_some.1 hl)
  · refine onPath_of_successor (fun k np r p heq => ?_) hsucc
    subst heq
    exact hk k np r p (point?_eq_some.1 hl)

end

/-! ## Where it does not fit -/

end Launcher
