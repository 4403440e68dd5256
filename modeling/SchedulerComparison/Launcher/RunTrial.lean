import SchedulerComparison.Lib.ProcessSteps

/-!
# `run_trial` and `main` of the two C++ launchers

`launcher.cpp` forks hackbench, lets it warm up, and times a test program that it forks in
`run_prog`; `hackbench_interupt.cpp` forks the test program first and hackbench three seconds
into its run. From the first `wait(NULL)` on the two are the same text (`trialTail`). Both are
programs over the control points `Point`, run by `Posix.Sys.step`: the launcher is the process
`launcherPid`, and a forked child runs the same code from the fork on, with `0` in the variable
the parent has the pid in.

A control point carries the local variables that are in scope there. `trials`, the number of
calls of `run_trial` that `main` has made, is not a variable of the source: it names the trial.
The test program's files are looked at and removed before and after each trial by calls of
`std::filesystem` that throw when they fail; nothing catches it, and the launcher aborts.
-/

open Posix

namespace Launcher

/-- What an `execl` runs: the path and the arguments. -/
structure Image where
  path : String
  argv : List String
  deriving DecidableEq

/-- `HACKBENCH_DATA_SIZE` (`launcher.cpp:16`, `hackbench_interupt.cpp:18`). -/
def hackbenchDataSize : String := "100000"

/-- The test program of `gzip/test_gzip_harness.cpp:35`, also forked by
`hackbench_interupt.cpp:47`. -/
def gzipProg : Image := ⟨"/usr/bin/gzip", ["/usr/bin/gzip", "-k", "-d", "gcc-13.2.0.tar.gz"]⟩

/-- The test program of `extract/test_extract_harness.cpp:35`. -/
def extractProg : Image := ⟨"/usr/bin/tar", ["/usr/bin/tar", "-xf", "gcc-13.2.0.tar"]⟩

/-- The test program of `ffmpeg/test_ffmpeg_harness.cpp:30`. -/
def ffmpegProg : Image :=
  ⟨"/usr/bin/ffmpeg",
    ["/usr/bin/ffmpeg", "-v", "quiet", "-i", "this_is_the_way.mp4", "images/image-%05d.png"]⟩

/-- `struct Args` (`launcher.cpp:89`), without the stream it opens: what becomes of the lines that
are written to it depends on whether it could be opened, and nothing else does. -/
structure Args where
  groupsLowerBound : Int := 1
  groupsUpperBound : Int := 1
  groupsStepSize : Int := 1
  coreToPinTo : Int := -1
  reps : Int := 1
  fileName : String := ""
  fileValid : Bool := false
  hackbenchAbsPath : String := "hackbench"
  deriving DecidableEq

/-- The hackbench of a trial (`launcher.cpp:26-31`, `hackbench_interupt.cpp:58-63`). -/
def hackbenchImage (args : Args) (pairs : Int) : Image :=
  ⟨args.hackbenchAbsPath,
    ["hackbench", "-s", hackbenchDataSize, "-g", toString pairs, "-i"] ++
      if args.coreToPinTo ≠ -1 then ["-p", toString args.coreToPinTo] else []⟩

/-- What the launchers print. Times are in nanoseconds; the source prints them divided by
`10^6`. -/
inductive Out where
  | runningWith (args : Args)
  /-- `Letting hackbench run for a bit`. -/
  | letting
  /-- `out << "[TEST_PROG_LOG] Time: "`, to the stream of the file given with `-f`. -/
  | file (time : Nat)
  /-- `std::cout << "[TEST_PROG_LOG] Time: "`. -/
  | cout (time : Nat)
  | waitError (testProcPid waitPid hackbench : Int)
  | hackbenchError (hackbenchWaitPid : Int)
  | pairCount (numPairs pin rep : Int)
  deriving DecidableEq

/-- The control points of `run_trial`. The first seven are the head of `launcher.cpp`'s, with
`run_prog` inlined; the next six the head of `hackbench_interupt.cpp`'s. -/
inductive TrialPoint where
  | forkHackbench
  | hackbenchForked (hackbench : Int)
  | warmUp (hackbench : Int)
  | prepare (hackbench : Int)
  | runProg (hackbench : Int)
  | forkTestProc (hackbench : Int) (start : Nat)
  | testProcForked (hackbench : Int) (start : Nat) (testProcPid : Int)
  | interuptPrepare
  | interuptStart
  | interuptForkTestProc (start : Nat)
  | interuptTestProcForked (start : Nat) (testProcPid : Int)
  | interuptForkHackbench (start : Nat) (testProcPid : Int)
  | interuptHackbenchForked (start : Nat) (testProcPid hackbench : Int)
  | execTestProg
  | exitFailed
  | wait (hackbench : Int) (start : Nat) (testProcPid : Int)
  | waited (hackbench : Int) (start : Nat) (testProcPid waitPid : Int)
  | tidy (hackbench : Int) (start : Nat) (testProcPid waitPid : Int) (finish : Nat)
  | compare (hackbench : Int) (start : Nat) (testProcPid waitPid : Int) (finish : Nat)
  | coutTime (hackbench : Int) (time : Nat)
  | kill (hackbench : Int)
  | waitHackbench (hackbench : Int)
  | hackbenchWaited (hackbench hackbenchWaitPid : Int)
  | returned

/-- `run_trial` from its first `wait(NULL)` on (`test_gzip_harness.cpp:41-50` with
`launcher.cpp:44-61`, and `hackbench_interupt.cpp:70-95`), and the two ways a child ends. -/
def trialTail (testProg : Image) (useOut : Bool) : TrialPoint → Call TrialPoint Image Out
  | .execTestProg => .execl testProg .exitFailed
  | .exitFailed => .exit (-1)
  | .wait h start t => .wait (.waited h start t)
  | .waited h start t w => .now (.tidy h start t w)
  | .tidy h start t w finish => .throws (.compare h start t w finish)
  | .compare h start t w finish =>
    if w ≠ t then .print (.waitError t w h) .returned
    else if useOut then .print (.file (finish - start)) (.coutTime h (finish - start))
    else .skip (.coutTime h (finish - start))
  | .coutTime h time => .print (.cout time) (.kill h)
  | .kill h => .kill h (.waitHackbench h)
  | .waitHackbench h => .wait (.hackbenchWaited h)
  | .hackbenchWaited h w =>
    if w ≠ h then .print (.hackbenchError w) .returned else .skip .returned
  | _ => .undefined

/-- `if (pin_to_core != -1) { .. sched_setaffinity .. exit(-1) }` of a test program's child
(`test_gzip_harness.cpp:24-34`, `hackbench_interupt.cpp:36-46`). -/
def pinTestProc (args : Args) : Call TrialPoint Image Out :=
  if args.coreToPinTo ≠ -1 then
    .attempt fun ok => if ok then .execTestProg else .exitFailed
  else .skip .execTestProg

/-- `run_trial` of `launcher.cpp:20`, with the `run_prog` of the harness it is linked with
(`test_gzip_harness.cpp:14`, `test_extract_harness.cpp:14`, `test_ffmpeg_harness.cpp:12`: they
differ in the test program). -/
def runTrial (testProg : Image) (args : Args) (pairs : Int) : TrialPoint → Call TrialPoint Image Out
  | .forkHackbench => .fork .hackbenchForked
  | .hackbenchForked h =>
    if h = 0 then .execl (hackbenchImage args pairs) .exitFailed
    else .print .letting (.warmUp h)
  | .warmUp h => .skip (.prepare h)
  | .prepare h => .throws (.runProg h)
  | .runProg h => .now (.forkTestProc h)
  | .forkTestProc h start => .fork (.testProcForked h start)
  | .testProcForked h start t => if t = 0 then pinTestProc args else .skip (.wait h start t)
  | .interuptPrepare | .interuptStart | .interuptForkTestProc _ | .interuptTestProcForked _ _
  | .interuptForkHackbench _ _ | .interuptHackbenchForked _ _ _ => .undefined
  | p => trialTail testProg args.fileValid p

/-- `run_trial` of `hackbench_interupt.cpp:26`. -/
def interuptRunTrial (args : Args) (pairs : Int) : TrialPoint → Call TrialPoint Image Out
  | .interuptPrepare => .throws .interuptStart
  | .interuptStart => .now .interuptForkTestProc
  | .interuptForkTestProc start => .fork (.interuptTestProcForked start)
  | .interuptTestProcForked start t =>
    if t = 0 then pinTestProc args else .skip (.interuptForkHackbench start t)
  | .interuptForkHackbench start t => .fork (.interuptHackbenchForked start t)
  | .interuptHackbenchForked start t h =>
    if h = 0 then .execl (hackbenchImage args pairs) .exitFailed
    else .skip (.wait h start t)
  | .forkHackbench | .hackbenchForked _ | .warmUp _ | .prepare _ | .runProg _ | .forkTestProc _ _
  | .testProcForked _ _ _ => .undefined
  | p => trialTail gzipProg args.fileValid p

/-- The control points of `main`. -/
inductive Point where
  | begin
  | pairs (trials : Nat) (numPairs : Int)
  | reps (trials : Nat) (numPairs rep : Int)
  | trial (trials : Nat) (numPairs rep : Int) (point : TrialPoint)
  | done

/-- A C `int`. -/
def IsInt (i : Int) : Prop := -2 ^ 31 ≤ i ∧ i < 2 ^ 31

instance (i : Int) : Decidable (IsInt i) := inferInstanceAs (Decidable (_ ∧ _))

/-- `main` behind `parse_args` (`launcher.cpp:226-236`, `hackbench_interupt.cpp:260-270`), around
the `run_trial` whose first control point is `first`. Signed overflow has no meaning. -/
def sweep (args : Args) (first : TrialPoint) (run : Int → TrialPoint → Call TrialPoint Image Out) :
    Point → Call Point Image Out
  | .begin => .print (.runningWith args) (.pairs 0 args.groupsLowerBound)
  | .pairs k numPairs =>
    if numPairs ≤ args.groupsUpperBound then .skip (.reps k numPairs 0) else .skip .done
  | .reps k numPairs rep =>
    if rep < args.reps then
      .print (.pairCount numPairs args.coreToPinTo rep) (.trial k numPairs rep first)
    else if IsInt (numPairs + args.groupsStepSize) then
      .skip (.pairs k (numPairs + args.groupsStepSize))
    else .undefined
  | .trial k numPairs rep .returned =>
    if IsInt (rep + 1) then .skip (.reps (k + 1) numPairs (rep + 1)) else .undefined
  | .trial k numPairs rep point => (run numPairs point).map (.trial k numPairs rep)
  | .done => .exit 0

/-- `main` of `launcher.cpp`. -/
def main (testProg : Image) (args : Args) : Point → Call Point Image Out :=
  sweep args .forkHackbench (runTrial testProg args)

/-- `main` of `hackbench_interupt.cpp`. -/
def interuptMain (args : Args) : Point → Call Point Image Out :=
  sweep args .interuptPrepare (interuptRunTrial args)

/-- The processes of a launcher, the launcher among them. -/
abbrev Procs := Sys Point Image Out

/-- The pid of the launcher itself. -/
def launcherPid : Int := 1

/-- The launcher behind `parse_args`. -/
def start : Procs := Sys.init launcherPid .begin

/-- The trial a control point is in. -/
def Point.trial? : Point → Option Nat
  | .trial k _ _ _ => some k
  | _ => none

/-- What a trial forks. -/
inductive Role where
  | hackbench
  | testProg
  deriving DecidableEq

/-- The trial and the role of the process forked at a control point. -/
def Point.forks : Point → Option (Nat × Role)
  | .trial k _ _ .forkHackbench | .trial k _ _ (.interuptForkHackbench _ _) => some (k, .hackbench)
  | .trial k _ _ (.forkTestProc _ _) | .trial k _ _ (.interuptForkTestProc _) =>
    some (k, .testProg)
  | _ => none

end Launcher
