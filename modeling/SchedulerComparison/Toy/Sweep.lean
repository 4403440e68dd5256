import SchedulerComparison.Launcher.Sweep
import SchedulerComparison.Toy.RunTrial

/-!
# The sweep of the toy launcher

`main` of `toy/launcher.c` has a loop over the fib numbers inside the one over the hackbench pairs.
`sweep_performs` is the theorem about it, and `requested_trials` the one about all three launchers.
-/

open Posix Posix.Sys Transition CountedLoop

namespace Toy

open Launcher (Image IsInt launcherPid)

/-- The trials of one number of pairs. -/
def fibTrials (args : Args) (np : Int) : List (Int × Int × Int) :=
  (values args.minFibNumber args.maxFibNumber args.fibNumberStepSize).flatMap fun f =>
    (values 0 (args.numReps - 1) 1).map fun r => (np, f, r)

/-- The trials that the arguments ask for: each number of pairs with each fib number, and each of
these with the repetitions `0` to `reps - 1`. -/
def requestedTrials (args : Args) : List (Int × Int × Int) :=
  (values args.minHackbenchPairs args.maxHackbenchPairs args.hackbenchPairsStepSize).flatMap
    (fibTrials args)

/-- The arguments are `int`s, as `atoi` reads them. -/
structure Args.AreInts (args : Args) : Prop where
  minHackbenchPairs : IsInt args.minHackbenchPairs
  maxHackbenchPairs : IsInt args.maxHackbenchPairs
  hackbenchPairsStepSize : IsInt args.hackbenchPairsStepSize
  minFibNumber : IsInt args.minFibNumber
  maxFibNumber : IsInt args.maxFibNumber
  fibNumberStepSize : IsInt args.fibNumberStepSize
  numReps : IsInt args.numReps
  pinToCore : IsInt args.pinToCore

/-- The loop over the pairs fits into `int`s, and so does the one over the fib numbers when it is
reached. -/
def Args.SweepFits (args : Args) : Prop :=
  Fits args.minHackbenchPairs args.maxHackbenchPairs args.hackbenchPairsStepSize ∧
    (args.minHackbenchPairs ≤ args.maxHackbenchPairs →
      Fits args.minFibNumber args.maxFibNumber args.fibNumberStepSize)

instance (args : Args) : Decidable args.SweepFits := inferInstanceAs (Decidable (_ ∧ (_ → _)))

/-! ## A trial -/

/-- The control points of `run_trial` that the launcher itself can be at. -/
def OnPath : TrialPoint → Prop
  | .hackbenchForked h => h ≠ 0
  | .fibForked _ f => f ≠ 0
  | _ => True

/-- The calls that are left in a trial, at most. -/
def TrialPoint.callsLeft : TrialPoint → Nat
  | .forkHackbench => 10
  | .hackbenchForked _ => 9
  | .warmUp _ => 8
  | .forkFib _ => 7
  | .fibForked _ _ => 6
  | .wait _ _ => 5
  | .waited _ _ _ => 4
  | .kill _ => 3
  | .waitHackbench _ => 2
  | .hackbenchWaited _ _ => 1
  | .returned => 0

section
variable {args : Args} {k : Nat} {np f r : Int} {p : TrialPoint} {l l' : Point}

/-- A step of `run_trial` that neither forks nor waits keeps the launcher on its path. -/
theorem OnPath.flow {p' : TrialPoint} (h : OnPath p) (hf : TrialFlow p p') :
    OnPath p' ∧ p'.callsLeft < p.callsLeft := by
  cases hf with
  | hackbenchFallsThrough | fibFallsThrough => exact (h rfl).elim
  | _ => exact ⟨trivial, by simp [TrialPoint.callsLeft]⟩

/-- A call of the launcher takes it on in the trial. -/
theorem OnPath.successor (h : OnPath p) (hp : p ≠ .returned)
    (hs : Successor (main args) (.trial k np f r p) l') :
    ∃ p', l' = .trial k np f r p' ∧ OnPath p' ∧ p'.callsLeft < p.callsLeft := by
  cases hs with
  | goes hg =>
    cases main_flow hg with
    | rep => exact absurd rfl hp
    | run _ _ _ _ hf => exact ⟨_, rfl, h.flow hf⟩
  | fork hc h0 hl =>
    obtain ⟨n, role, hf⟩ := main_fork hc
    subst hl
    cases hf <;> exact ⟨_, rfl, h0, by simp [TrialPoint.callsLeft]⟩
  | wait hc hl =>
    subst hl
    cases main_wait hc <;> exact ⟨_, rfl, trivial, by simp [TrialPoint.callsLeft]⟩

/-- In a trial the launcher has a call to make. -/
theorem main_trial_defined (hp : p ≠ .returned) : main args (.trial k np f r p) ≠ .undefined := by
  rw [main_trial hp]
  intro h
  cases p with
  | hackbenchForked | fibForked | waited | hackbenchWaited =>
    simp only [runTrial] at h
    split at h <;> cases h
  | returned => exact absurd rfl hp
  | _ => cases h

theorem TrialPoint.callsLeft_le (p : TrialPoint) : p.callsLeft ≤ 10 := by
  cases p <;> simp [TrialPoint.callsLeft]

/-- Behind its first control point `run_trial` is not entered again. -/
theorem enters_of_lt (h : p.callsLeft < 10) : (Point.trial k np f r p).enters = none := by
  cases p <;> first | rfl | simp [TrialPoint.callsLeft] at h

/-! ## The sweep -/

/-- The trials of the rest of the loop over the pairs. -/
def pairsLeft (args : Args) (np : Int) : List (Int × Int × Int) :=
  (values np args.maxHackbenchPairs args.hackbenchPairsStepSize).flatMap (fibTrials args)

/-- The trials of the rest of the loop over the fib numbers, and of what follows it. -/
def fibsLeft (args : Args) (np f : Int) : List (Int × Int × Int) :=
  ((values f args.maxFibNumber args.fibNumberStepSize).flatMap fun f =>
    (values 0 (args.numReps - 1) 1).map fun r => (np, f, r)) ++
      pairsLeft args (np + args.hackbenchPairsStepSize)

/-- The trials of the rest of the loop over the repetitions, and of what follows it. -/
def repsLeft (args : Args) (np f r : Int) : List (Int × Int × Int) :=
  (values r (args.numReps - 1) 1).map (fun r => (np, f, r)) ++
    fibsLeft args np (f + args.fibNumberStepSize)

/-- The trials that are still to be entered behind a control point. -/
def Point.trialsLeft (args : Args) : Point → List (Int × Int × Int)
  | .pairs _ np => pairsLeft args np
  | .fibs _ np f => fibsLeft args np f
  | .reps _ np f r => repsLeft args np f r
  | .trial _ np f r _ => repsLeft args np f (r + 1)
  | .done => []

/-- The calls of one fib number, at most. -/
def fibCalls (args : Args) : Nat := 2 + (values 0 (args.numReps - 1) 1).length * 12

/-- The calls of the rest of the loop over the pairs, at most. -/
def pairsCalls (args : Args) (np : Int) : Nat :=
  2 + (values np args.maxHackbenchPairs args.hackbenchPairsStepSize).length *
    (2 + (values args.minFibNumber args.maxFibNumber args.fibNumberStepSize).length * fibCalls args)

/-- The calls of the rest of the loop over the fib numbers, and of what follows it. -/
def fibsCalls (args : Args) (np f : Int) : Nat :=
  1 + (values f args.maxFibNumber args.fibNumberStepSize).length * fibCalls args +
    pairsCalls args (np + args.hackbenchPairsStepSize)

/-- The calls of the rest of the loop over the repetitions, and of what follows it. -/
def repsCalls (args : Args) (np f r : Int) : Nat :=
  1 + (values r (args.numReps - 1) 1).length * 12 + fibsCalls args np (f + args.fibNumberStepSize)

/-- The calls that are still to come at a control point, at most. -/
def Point.callsLeft (args : Args) : Point → Nat
  | .pairs _ np => pairsCalls args np
  | .fibs _ np f => fibsCalls args np f
  | .reps _ np f r => repsCalls args np f r
  | .trial _ np f r p => p.callsLeft + 1 + repsCalls args np f (r + 1)
  | .done => 1

/-- A number of pairs of the sweep, with a loop over the fib numbers that fits. -/
structure InPairs (args : Args) (np : Int) : Prop
    extends InLoop np args.maxHackbenchPairs args.hackbenchPairsStepSize where
  fibsFit : Fits args.minFibNumber args.maxFibNumber args.fibNumberStepSize

/-- A fib number of the sweep. -/
abbrev InFibs (args : Args) (f : Int) : Prop :=
  InLoop f args.maxFibNumber args.fibNumberStepSize

/-- Where the launcher can be. -/
def SweepAt (args : Args) : Point → Prop
  | .pairs _ np => IsInt np ∧ Fits np args.maxHackbenchPairs args.hackbenchPairsStepSize ∧
      (np ≤ args.maxHackbenchPairs →
        Fits args.minFibNumber args.maxFibNumber args.fibNumberStepSize)
  | .fibs _ np f => InPairs args np ∧ IsInt f ∧ Fits f args.maxFibNumber args.fibNumberStepSize
  | .reps _ np f r => InPairs args np ∧ InFibs args f ∧ 0 ≤ r
  | .trial _ np f r p => InPairs args np ∧ InFibs args f ∧ (0 ≤ r ∧ r < args.numReps) ∧ OnPath p
  | .done => True

theorem pairsLeft_of_le (h : InPairs args np) :
    pairsLeft args np = fibsLeft args np args.minFibNumber := by
  rw [pairsLeft, h.values, List.flatMap_cons]
  rfl

theorem fibsLeft_of_le (h : InFibs args f) : fibsLeft args np f = repsLeft args np f 0 := by
  rw [fibsLeft, h.values, List.flatMap_cons, List.append_assoc]
  rfl

theorem fibsLeft_of_lt (h : args.maxFibNumber < f) :
    fibsLeft args np f = pairsLeft args (np + args.hackbenchPairsStepSize) := by
  rw [fibsLeft, values_of_lt h]
  rfl

theorem repsLeft_of_lt (h : r < args.numReps) :
    repsLeft args np f r = (np, f, r) :: repsLeft args np f (r + 1) := by
  rw [repsLeft, values_of_le (by omega) (le_refl 1)]
  rfl

theorem repsLeft_of_le (h : args.numReps ≤ r) :
    repsLeft args np f r = fibsLeft args np (f + args.fibNumberStepSize) := by
  rw [repsLeft, values_of_lt (by omega)]
  rfl

theorem fibsCalls_lt_pairsCalls (h : InPairs args np) :
    fibsCalls args np args.minFibNumber < pairsCalls args np := by
  rw [fibsCalls, pairsCalls, pairsCalls, h.values, List.length_cons, Nat.add_mul]
  omega

theorem repsCalls_lt_fibsCalls (h : InFibs args f) :
    repsCalls args np f 0 < fibsCalls args np f := by
  rw [repsCalls, fibsCalls, fibsCalls, h.values, List.length_cons, Nat.add_mul, Nat.one_mul,
    fibCalls]
  omega

theorem repsCalls_of_lt (h : r < args.numReps) :
    repsCalls args np f (r + 1) + 12 = repsCalls args np f r := by
  have hle : r ≤ args.numReps - 1 := by omega
  rw [repsCalls, repsCalls, values_of_le hle (le_refl 1), List.length_cons]
  omega

/-! ## The plan of the launcher -/

/-- The next repetition is an `int`. -/
theorem isInt_next_rep (hints : args.AreInts) (h : 0 ≤ r ∧ r < args.numReps) :
    IsInt (r + 1) := by
  have hlt := hints.numReps.2
  exact ⟨by omega, by omega⟩

theorem main_pairs (args : Args) (k : Nat) (np : Int) :
    main args (.pairs k np) =
      .skip (if np ≤ args.maxHackbenchPairs then .fibs k np args.minFibNumber else .done) := by
  simp only [main]
  split <;> rfl

theorem main_fibs_of_le (h : f ≤ args.maxFibNumber) :
    main args (.fibs k np f) = .skip (.reps k np f 0) := if_pos h

theorem main_fibs_of_lt (h : args.maxFibNumber < f)
    (hint : IsInt (np + args.hackbenchPairsStepSize)) :
    main args (.fibs k np f) = .skip (.pairs k (np + args.hackbenchPairsStepSize)) := by
  simp only [main, if_neg (Int.not_le.2 h), if_pos hint]

theorem main_reps_of_lt (h : r < args.numReps) :
    main args (.reps k np f r) =
      .print (.launcherLog np f args.pinToCore r) (.trial k np f r .forkHackbench) := if_pos h

theorem main_reps_of_le (h : args.numReps ≤ r) (hint : IsInt (f + args.fibNumberStepSize)) :
    main args (.reps k np f r) = .skip (.fibs k np (f + args.fibNumberStepSize)) := by
  simp only [main, if_neg (Int.not_lt.2 h), if_pos hint]

theorem main_returned (hint : IsInt (r + 1)) :
    main args (.trial k np f r .returned) = .skip (.reps (k + 1) np f (r + 1)) := by
  simp only [main, if_pos hint]

theorem main_done (args : Args) : main args .done = .exit 0 := rfl

/-- A call takes the launcher on in the sweep, with fewer calls left. -/
theorem sweepAt_step (hints : args.AreInts) (h : SweepAt args l)
    (hs : Successor (main args) l l') :
    SweepAt args l' ∧ l'.callsLeft args < l.callsLeft args := by
  cases l with
  | pairs k np =>
    rw [hs.eq_of_skip (main_pairs args k np)]
    split
    · next hle =>
      have hin : InPairs args np := ⟨⟨h.1, h.2.1, hle⟩, h.2.2 hle⟩
      exact ⟨⟨hin, hints.minFibNumber, hin.fibsFit⟩, fibsCalls_lt_pairsCalls hin⟩
    · exact ⟨trivial, by simp only [Point.callsLeft, pairsCalls]; omega⟩
  | fibs k np f =>
    obtain ⟨hin, hint, hfits⟩ := h
    rcases le_or_gt f args.maxFibNumber with hle | hlt
    · have hfib : InFibs args f := ⟨hint, hfits, hle⟩
      rw [hs.eq_of_skip (main_fibs_of_le hle)]
      exact ⟨⟨hin, hfib, le_refl 0⟩, repsCalls_lt_fibsCalls hfib⟩
    · rw [hs.eq_of_skip (main_fibs_of_lt hlt hin.isInt_next)]
      refine ⟨⟨hin.isInt_next, hin.fits.next hin.le, fun _ => hin.fibsFit⟩, ?_⟩
      simp only [Point.callsLeft, fibsCalls]
      omega
  | reps k np f r =>
    obtain ⟨hin, hfib, h0⟩ := h
    rcases lt_or_ge r args.numReps with hlt | hle
    · rw [hs.eq_of_print (main_reps_of_lt hlt)]
      refine ⟨⟨hin, hfib, ⟨h0, hlt⟩, trivial⟩, ?_⟩
      have := @repsCalls_of_lt args np f r hlt
      simp only [Point.callsLeft, TrialPoint.callsLeft]
      omega
    · rw [hs.eq_of_skip (main_reps_of_le hle hfib.isInt_next)]
      refine ⟨⟨hin, hfib.isInt_next, hfib.fits.next hfib.le⟩, ?_⟩
      simp only [Point.callsLeft, repsCalls]
      omega
  | trial k np f r p =>
    obtain ⟨hin, hfib, hr, hpath⟩ := h
    by_cases hp : p = .returned
    · subst hp
      rw [hs.eq_of_skip (main_returned (isInt_next_rep hints hr))]
      refine ⟨⟨hin, hfib, by omega⟩, ?_⟩
      simp only [Point.callsLeft]
      omega
    · obtain ⟨p', rfl, hpath', hcalls⟩ := hpath.successor hp hs
      refine ⟨⟨hin, hfib, hr, hpath'⟩, ?_⟩
      simp only [Point.callsLeft]
      omega
  | done => exact absurd (main_done args) hs.ne_exit

/-- No step of the sweep is without a meaning. -/
theorem sweepAt_defined (hints : args.AreInts) (h : SweepAt args l) : main args l ≠ .undefined := by
  cases l with
  | pairs k np => rw [main_pairs]; nofun
  | fibs k np f =>
    rcases le_or_gt f args.maxFibNumber with hle | hlt
    · rw [main_fibs_of_le hle]; nofun
    · rw [main_fibs_of_lt hlt h.1.isInt_next]; nofun
  | reps k np f r =>
    rcases lt_or_ge r args.numReps with hlt | hle
    · rw [main_reps_of_lt hlt]; nofun
    · rw [main_reps_of_le hle h.2.1.isInt_next]; nofun
  | trial k np f r p =>
    by_cases hp : p = .returned
    · subst hp
      rw [main_returned (isInt_next_rep hints h.2.2.1)]
      nofun
    · exact main_trial_defined hp
  | done => nofun

/-- Along a call, a trial that is entered next is the first of those that are still to come. -/
theorem trialsLeft_successor (hints : args.AreInts) (h : SweepAt args l)
    (hs : Successor (main args) l l') :
    l.trialsLeft args = l'.enters.toList ++ l'.trialsLeft args := by
  cases l with
  | pairs k np =>
    rw [hs.eq_of_skip (main_pairs args k np)]
    split
    · next hle => exact pairsLeft_of_le ⟨⟨h.1, h.2.1, hle⟩, h.2.2 hle⟩
    · next hlt =>
      simp only [Point.trialsLeft, pairsLeft, values_of_lt (Int.not_le.1 hlt), List.flatMap_nil]
      rfl
  | fibs k np f =>
    obtain ⟨hin, hint, hfits⟩ := h
    rcases le_or_gt f args.maxFibNumber with hle | hlt
    · rw [hs.eq_of_skip (main_fibs_of_le hle)]
      exact fibsLeft_of_le ⟨hint, hfits, hle⟩
    · rw [hs.eq_of_skip (main_fibs_of_lt hlt hin.isInt_next)]
      exact fibsLeft_of_lt hlt
  | reps k np f r =>
    rcases lt_or_ge r args.numReps with hlt | hle
    · rw [hs.eq_of_print (main_reps_of_lt hlt)]
      exact repsLeft_of_lt hlt
    · rw [hs.eq_of_skip (main_reps_of_le hle h.2.1.isInt_next)]
      exact repsLeft_of_le hle
  | trial k np f r p =>
    by_cases hp : p = .returned
    · subst hp
      rw [hs.eq_of_skip (main_returned (isInt_next_rep hints h.2.2.1))]
      rfl
    · obtain ⟨p', rfl, -, hcalls⟩ := h.2.2.2.successor hp hs
      rw [enters_of_lt (hcalls.trans_le p.callsLeft_le)]
      rfl
  | done => exact absurd (main_done args) hs.ne_exit

/-- The launcher's plan: the trials that are still to come. -/
def sweepPlan (args : Args) (hints : args.AreInts) : Plan (main args) Point.enters where
  at_ := SweepAt args
  rest := Point.trialsLeft args
  bound := Point.callsLeft args
  step := sweepAt_step hints
  defined := sweepAt_defined hints
  rest_eq := trialsLeft_successor hints

end

/-- Where the loops fit into `int`s, the trials for which the toy launcher has entered `run_trial`
are the first of those that were asked for, in their order, and all of them when the loops have
ended; no `int` overflows, and the number of the launcher's calls is bounded. -/
theorem sweep_performs (args : Args) (hints : args.AreInts) (hfits : args.SweepFits) :
    Performs (main args) (start args) launcherPid Point.enters (requestedTrials args) .done :=
  have h₀ : SweepAt args (.pairs 0 args.minHackbenchPairs) := ⟨hints.minHackbenchPairs, hfits⟩
  (sweepPlan args hints).performs h₀ rfl

end Toy
