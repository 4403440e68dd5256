import SchedulerComparison.Launcher.RunTrial

/-!
# `run_trial` and `main` of `toy/launcher.c`

The older launcher runs hackbench against the toy program fib. Its two forks are followed by
`execl` without an `exit`: a child whose `execl` returns goes on after the branch of its fork,
with `0` in the variable that the launcher has the child's pid in. The control points are named
as in the C++ launchers.
-/

open Posix Posix.Sys

namespace Toy

open Launcher (Image IsInt Role launcherPid)

/-- The parameters that `main` reads with `atoi` (`launcher.c:24-34`, `87-97`). -/
structure Args where
  minHackbenchPairs : Int := 1
  maxHackbenchPairs : Int := 1
  hackbenchPairsStepSize : Int := 1
  minFibNumber : Int := 1
  maxFibNumber : Int := 1
  fibNumberStepSize : Int := 1
  numReps : Int := 1
  pinToCore : Int := 0

/-- The hackbench of a trial (`launcher.c:40-44`). -/
def hackbenchImage (args : Args) (pairs : Int) : Image :=
  ⟨"hackbench", ["hackbench", "-s", "100000", "-g", toString pairs, "-i"] ++
    if args.pinToCore = 1 then ["-a"] else []⟩

/-- The fib of a trial (`launcher.c:54-58`). -/
def fibImage (args : Args) (fibNum : Int) : Image :=
  ⟨"fib", ["fib", toString fibNum, if args.pinToCore ≠ 0 then "0" else "-1"]⟩

/-- What the launcher prints. -/
inductive Out where
  | launcherLog (pair fib pin rep : Int)
  | letting
  | fibError (hackbench fib waitPid : Int)
  | hackbenchError (waitPid : Int)
  deriving DecidableEq

/-- The control points of `run_trial`. -/
inductive TrialPoint where
  | forkHackbench
  | hackbenchForked (hackbench : Int)
  | warmUp (hackbench : Int)
  | forkFib (hackbench : Int)
  | fibForked (hackbench fib : Int)
  | wait (hackbench fib : Int)
  | waited (hackbench fib waitPid : Int)
  | kill (hackbench : Int)
  | waitHackbench (hackbench : Int)
  | hackbenchWaited (hackbench waitPid : Int)
  | returned

/-- `run_trial` (`launcher.c:37`). -/
def runTrial (args : Args) (pairs fibNum : Int) : TrialPoint → Call TrialPoint Image Out
  | .forkHackbench => .fork .hackbenchForked
  | .hackbenchForked h =>
    if h = 0 then .execl (hackbenchImage args pairs) (.warmUp h) else .skip (.warmUp h)
  | .warmUp h => .print .letting (.forkFib h)
  | .forkFib h => .fork (.fibForked h)
  | .fibForked h f =>
    if f = 0 then .execl (fibImage args fibNum) (.wait h f) else .skip (.wait h f)
  | .wait h f => .wait (.waited h f)
  | .waited h f w => if w ≠ f then .print (.fibError h f w) .returned else .skip (.kill h)
  | .kill h => .kill h (.waitHackbench h)
  | .waitHackbench h => .wait (.hackbenchWaited h)
  | .hackbenchWaited h w => if w ≠ h then .print (.hackbenchError w) .returned else .skip .returned
  | .returned => .undefined

/-- The control points of `main`. `trials` is the number of calls of `run_trial` that returned. -/
inductive Point where
  | pairs (trials : Nat) (numPairs : Int)
  | fibs (trials : Nat) (numPairs fibNum : Int)
  | reps (trials : Nat) (numPairs fibNum rep : Int)
  | trial (trials : Nat) (numPairs fibNum rep : Int) (point : TrialPoint)
  | done

/-- `main` after it has accepted its arguments (`launcher.c:99-123`). Signed overflow has no
meaning. -/
def main (args : Args) : Point → Call Point Image Out
  | .pairs k numPairs =>
    if numPairs ≤ args.maxHackbenchPairs then .skip (.fibs k numPairs args.minFibNumber)
    else .skip .done
  | .fibs k numPairs fibNum =>
    if fibNum ≤ args.maxFibNumber then .skip (.reps k numPairs fibNum 0)
    else if IsInt (numPairs + args.hackbenchPairsStepSize) then
      .skip (.pairs k (numPairs + args.hackbenchPairsStepSize))
    else .undefined
  | .reps k numPairs fibNum rep =>
    if rep < args.numReps then
      .print (.launcherLog numPairs fibNum args.pinToCore rep)
        (.trial k numPairs fibNum rep .forkHackbench)
    else if IsInt (fibNum + args.fibNumberStepSize) then
      .skip (.fibs k numPairs (fibNum + args.fibNumberStepSize))
    else .undefined
  | .trial k numPairs fibNum rep .returned =>
    if IsInt (rep + 1) then .skip (.reps (k + 1) numPairs fibNum (rep + 1)) else .undefined
  | .trial k numPairs fibNum rep point =>
    (runTrial args numPairs fibNum point).map (.trial k numPairs fibNum rep)
  | .done => .exit 0

/-- The processes of the toy launcher, the launcher among them. -/
abbrev Procs := Sys Point Image Out

/-- The launcher at the start of its sweep. -/
def start (args : Args) : Procs := Sys.init launcherPid (.pairs 0 args.minHackbenchPairs)

/-- The trial that `run_trial` is called for, pairs, fib number and repetition, at its first control
point. -/
def Point.enters : Point → Option (Int × Int × Int)
  | .trial _ numPairs fibNum rep .forkHackbench => some (numPairs, fibNum, rep)
  | _ => none

/-- The trial a control point is in. -/
def Point.trial? : Point → Option Nat
  | .trial k _ _ _ _ => some k
  | _ => none

/-- The trial and the role of the process forked at a control point. -/
def Point.forks : Point → Option (Nat × Role)
  | .trial k _ _ _ .forkHackbench => some (k, .hackbench)
  | .trial k _ _ _ (.forkFib _) => some (k, .testProg)
  | _ => none

/-! ## Where a process goes -/

/-- The steps of `run_trial` that neither fork nor wait. In the last two, the `execl` of a forked
child has returned. -/
inductive TrialFlow : TrialPoint → TrialPoint → Prop
  | warmUp (h : Int) (h0 : h ≠ 0) : TrialFlow (.hackbenchForked h) (.warmUp h)
  | forkFib (h : Int) : TrialFlow (.warmUp h) (.forkFib h)
  | wait (h f : Int) (f0 : f ≠ 0) : TrialFlow (.fibForked h f) (.wait h f)
  | fibError (h f w : Int) (hw : w ≠ f) : TrialFlow (.waited h f w) .returned
  | toKill (h f : Int) : TrialFlow (.waited h f f) (.kill h)
  | kill (h : Int) : TrialFlow (.kill h) (.waitHackbench h)
  | done (h w : Int) : TrialFlow (.hackbenchWaited h w) .returned
  | hackbenchFallsThrough : TrialFlow (.hackbenchForked 0) (.warmUp 0)
  | fibFallsThrough (h : Int) : TrialFlow (.fibForked h 0) (.wait h 0)

/-- The steps of `main` that neither fork nor wait. -/
inductive Flow (args : Args) : Point → Point → Prop
  | fibs (k : Nat) (np : Int) : Flow args (.pairs k np) (.fibs k np args.minFibNumber)
  | done (k : Nat) (np : Int) : Flow args (.pairs k np) .done
  | reps (k : Nat) (np f : Int) : Flow args (.fibs k np f) (.reps k np f 0)
  | pairs (k : Nat) (np f : Int) :
      Flow args (.fibs k np f) (.pairs k (np + args.hackbenchPairsStepSize))
  | trial (k : Nat) (np f r : Int) :
      Flow args (.reps k np f r) (.trial k np f r .forkHackbench)
  | nextFib (k : Nat) (np f r : Int) :
      Flow args (.reps k np f r) (.fibs k np (f + args.fibNumberStepSize))
  | rep (k : Nat) (np f r : Int) :
      Flow args (.trial k np f r .returned) (.reps (k + 1) np f (r + 1))
  | run (k : Nat) (np f r : Int) {p p' : TrialPoint} (hp : TrialFlow p p') :
      Flow args (.trial k np f r p) (.trial k np f r p')

/-- Where a process forks, for which role, and where it continues. -/
inductive ForksAt : Point → Nat → Role → (Int → Point) → Prop
  | hackbench (k : Nat) (np f r : Int) :
      ForksAt (.trial k np f r .forkHackbench) k .hackbench
        fun pid => .trial k np f r (.hackbenchForked pid)
  | fib (k : Nat) (np f r h : Int) :
      ForksAt (.trial k np f r (.forkFib h)) k .testProg
        fun pid => .trial k np f r (.fibForked h pid)

/-- Where a process waits, and where it continues. -/
inductive WaitsAt : Point → (Int → Point) → Prop
  | first (k : Nat) (np f r h fib : Int) :
      WaitsAt (.trial k np f r (.wait h fib)) fun pid => .trial k np f r (.waited h fib pid)
  | second (k : Nat) (np f r h : Int) :
      WaitsAt (.trial k np f r (.waitHackbench h))
        fun pid => .trial k np f r (.hackbenchWaited h pid)

/-- A forked child that is about to execute its program. -/
inductive AtExecl : Point → Prop
  | hackbench (k : Nat) (np f r : Int) : AtExecl (.trial k np f r (.hackbenchForked 0))
  | fib (k : Nat) (np f r h : Int) : AtExecl (.trial k np f r (.fibForked h 0))

section
variable {args : Args} {l l' : Point} {n : Nat} {ret : Int}

/-- A call of `main` at a control point of `run_trial` is `run_trial`'s. -/
theorem main_trial {k : Nat} {np f r : Int} {p : TrialPoint} (hp : p ≠ .returned) :
    main args (.trial k np f r p) = (runTrial args np f p).map (.trial k np f r) := by
  cases p <;> first | rfl | exact absurd rfl hp

theorem runTrial_flow {pairs fibNum : Int} {p p' : TrialPoint}
    (hg : Goes n ret (runTrial args pairs fibNum p) p') : TrialFlow p p' := by
  cases p with
  | hackbenchForked h =>
    simp only [runTrial] at hg
    split at hg
    · next h0 => cases hg; subst h0; exact .hackbenchFallsThrough
    · next h0 => cases hg; exact .warmUp h h0
  | fibForked h f =>
    simp only [runTrial] at hg
    split at hg
    · next f0 => cases hg; subst f0; exact .fibFallsThrough h
    · next f0 => cases hg; exact .wait h f f0
  | waited h f w =>
    simp only [runTrial] at hg
    split at hg
    · next hw => cases hg; exact .fibError h f w hw
    · next hw =>
      simp only [ne_eq, not_not] at hw
      cases hg
      subst hw
      exact .toKill h w
  | hackbenchWaited h w =>
    simp only [runTrial] at hg
    split at hg <;> cases hg <;> exact .done h w
  | warmUp h => cases hg; exact .forkFib h
  | kill h => cases hg; exact .kill h
  | forkHackbench | forkFib | wait | waitHackbench | returned => cases hg

/-- The steps of `main` that neither fork nor wait are these. -/
theorem main_flow (hg : Goes n ret (main args l) l') : Flow args l l' := by
  cases l with
  | pairs k np =>
    simp only [main] at hg
    split at hg <;> cases hg
    · exact .fibs k np
    · exact .done k np
  | fibs k np f =>
    simp only [main] at hg
    split at hg
    · cases hg; exact .reps k np f
    · split at hg <;> cases hg
      exact .pairs k np f
  | reps k np f r =>
    simp only [main] at hg
    split at hg
    · cases hg; exact .trial k np f r
    · split at hg <;> cases hg
      exact .nextFib k np f r
  | done => cases hg
  | trial k np f r p =>
    by_cases hp : p = .returned
    · subst hp
      simp only [main] at hg
      split at hg <;> cases hg
      exact .rep k np f r
    · rw [main_trial hp] at hg
      obtain ⟨p', hg', rfl⟩ := hg.of_map
      exact .run k np f r (runTrial_flow hg')

/-- The calls of the launcher: its forks, waits, kills and `execl` calls are at these points, and
the others are calls of these kinds. -/
inductive Calls : Point → Call Point Image Out → Prop
  | fork {l : Point} {k : Nat} {role : Role} {g : Int → Point} (hg : ForksAt l k role g) :
      Calls l (.fork g)
  | wait {l : Point} {g : Int → Point} (hg : WaitsAt l g) : Calls l (.wait g)
  | kill (k : Nat) (np f r h : Int) :
      Calls (.trial k np f r (.kill h)) (.kill h (.trial k np f r (.waitHackbench h)))
  | execl {l l' : Point} {img : Image} (hl : AtExecl l)
      (himg : img.path = "hackbench" ∨ img.path = "fib") : Calls l (.execl img l')
  | print (l l' : Point) (out : Out) : Calls l (.print out l')
  | exit (l : Point) (status : Int) : Calls l (.exit status)
  | skip (l l' : Point) : Calls l (.skip l')
  | undefined (l : Point) : Calls l .undefined

theorem runTrial_calls {k : Nat} {np f r : Int} (p : TrialPoint) :
    Calls (.trial k np f r p) ((runTrial args np f p).map (.trial k np f r)) := by
  cases p with
  | forkHackbench => exact .fork (.hackbench k np f r)
  | forkFib h => exact .fork (.fib k np f r h)
  | wait h fib => exact .wait (.first k np f r h fib)
  | waitHackbench h => exact .wait (.second k np f r h)
  | kill h => exact .kill k np f r h
  | hackbenchForked h =>
    simp only [runTrial]
    split
    · next h0 => subst h0; exact .execl (.hackbench k np f r) (.inl rfl)
    · exact .skip _ _
  | fibForked h fib =>
    simp only [runTrial]
    split
    · next f0 => subst f0; exact .execl (.fib k np f r h) (.inr rfl)
    · exact .skip _ _
  | waited | hackbenchWaited =>
    simp only [runTrial]
    split
    · exact .print _ _ _
    · exact .skip _ _
  | warmUp => exact .print _ _ _
  | returned => exact .undefined _

/-- The calls of `main` are these. -/
theorem main_calls (args : Args) (l : Point) : Calls l (main args l) := by
  cases l with
  | pairs =>
    simp only [main]
    split <;> exact .skip _ _
  | fibs =>
    simp only [main]
    split
    · exact .skip _ _
    · split
      · exact .skip _ _
      · exact .undefined _
  | reps k np f r =>
    simp only [main]
    split
    · exact .print _ _ _
    · split
      · exact .skip _ _
      · exact .undefined _
  | done => exact .exit _ _
  | trial k np f r p =>
    by_cases hp : p = .returned
    · subst hp
      simp only [main]
      split
      · exact .skip _ _
      · exact .undefined _
    · rw [main_trial hp]
      exact runTrial_calls p

/-- The forks are at these points. -/
theorem main_fork {g : Int → Point} (hg : main args l = .fork g) :
    ∃ k role, ForksAt l k role g := by
  cases hg ▸ main_calls args l with
  | fork hg => exact ⟨_, _, hg⟩

/-- The waits are at these points. -/
theorem main_wait {g : Int → Point} (hg : main args l = .wait g) : WaitsAt l g := by
  cases hg ▸ main_calls args l with
  | wait hg => exact hg

/-- The programs are executed at these points. -/
theorem main_execl {img : Image} (hg : main args l = .execl img l') :
    AtExecl l ∧ (img.path = "hackbench" ∨ img.path = "fib") := by
  cases hg ▸ main_calls args l with
  | execl hl himg => exact ⟨hl, himg⟩

/-- The kills are at this point. -/
theorem main_kill {target : Int} (hg : main args l = .kill target l') :
    ∃ k np f r, l = .trial k np f r (.kill target) := by
  cases hg ▸ main_calls args l with
  | kill k np f r => exact ⟨k, np, f, r, rfl⟩

/-- `run_trial` starts with its first control point. -/
theorem enters_eq_some {t : Int × Int × Int} (h : l.enters = some t) :
    ∃ k, l = .trial k t.1 t.2.1 t.2.2 .forkHackbench := by
  cases l with
  | trial k np f r p => cases p <;> cases h; exact ⟨k, rfl⟩
  | pairs | fibs | reps | done => cases h

/-- A forked child starts where it is about to execute its program. -/
theorem ForksAt.child {k : Nat} {role : Role} {g : Int → Point} (h : ForksAt l k role g) :
    AtExecl (g 0) := by
  cases h with
  | hackbench k np f r => exact .hackbench k np f r
  | fib k np f r h => exact .fib k np f r h

end

end Toy
