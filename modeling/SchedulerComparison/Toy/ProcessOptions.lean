import SchedulerComparison.Hackbench.ProcessOptions
import SchedulerComparison.Launcher.CommandLine
import SchedulerComparison.Toy.RunTrial

/-!
# `process_options` of the toy hackbench

`process_options` of `toy/hackbench.c` has the options of the later one with the same checks, and
those that the later one has lost: `-p` for pipes, `-T` and `-P` for threads and processes, and `-a`
without an argument for the core `0`. `processOptions_hackbenchImage` is what it makes of the
command line of a trial of the toy launcher.
-/

open CxxString Getopt

namespace ToyHackbench

open Launcher (IsInt complaint)
open Hackbench (ProcessStop)

/-- `THREAD_MODE` and `PROCESS_MODE` (`toy/hackbench.c:45-46`). -/
inductive Mode where
  | thread
  | process
  deriving DecidableEq

/-- The global variables that the options set (`toy/hackbench.c:36-53`): those of the later
hackbench, with 20 file descriptors, and two others. -/
structure Globals where
  common : Hackbench.Globals := { numFds := 20 }
  processMode : Mode := .process
  usePipes : Bool := false
  deriving DecidableEq

/-- What the loop changes. -/
structure Processed where
  common : Hackbench.Processed := { globals := { numFds := 20 } }
  processMode : Mode := .process
  usePipes : Bool := false

/-- The `switch` (`toy/hackbench.c:377-434`), given what `getopt_long` has found. -/
def processOption (argv : List (List Char)) (p : Processed) : Found → Except ProcessStop Processed
  | .done => .ok p
  | .unknown => .ok { p with common := { p.common with error := true } }
  | .option c optarg longindex =>
    let optind := longindex.getD 0
    match c with
    | 'p' => .ok { p with usePipes := true }
    | 's' => return { p with common := ← Hackbench.processDatasize argv optind optarg p.common }
    | 'l' => return { p with common := ← Hackbench.processLoops argv optind optarg p.common }
    | 'g' => return { p with common := ← Hackbench.processGroups argv optind optarg p.common }
    | 'f' => return { p with common := ← Hackbench.processFds argv optind optarg p.common }
    | 'T' => .ok { p with processMode := .thread }
    | 'P' => .ok { p with processMode := .process }
    | 'F' => .ok { p with
        common := { p.common with globals := { p.common.globals with fifo := true } } }
    | 'a' => .ok { p with
        common := { p.common with globals := { p.common.globals with coreToPin := 0 } } }
    | 'i' => .ok { p with
        common := { p.common with globals := { p.common.globals with isInfinite := true } } }
    | 'h' => .error .usageExit
    | _ => .ok { p with common := { p.common with error := true } }

/-- The short options (`toy/hackbench.c:372`). -/
def optstring : List Char := "ps:l:g:f:TPFhai".toList

/-- The long options (`toy/hackbench.c:357-370`). -/
def longopts : List LongOption :=
  [⟨"pipe".toList, false, 'p'⟩, ⟨"datasize".toList, true, 's'⟩, ⟨"loops".toList, true, 'l'⟩,
    ⟨"groups".toList, true, 'g'⟩, ⟨"fds".toList, true, 'f'⟩, ⟨"threads".toList, false, 'T'⟩,
    ⟨"processes".toList, false, 'P'⟩, ⟨"fifo".toList, false, 'F'⟩, ⟨"help".toList, false, 'h'⟩,
    ⟨"pin".toList, false, 'a'⟩, ⟨"infinite".toList, false, 'i'⟩]

/-- `process_options(argc, argv)` (`toy/hackbench.c:349`). -/
def processOptions (argv : List (List Char)) : Except ProcessStop Globals := do
  let p ← (calls optstring longopts ⟨[], argv.tail⟩).foldlM (processOption argv) {}
  if p.common.error then .error (.errorExit p.common.stderr)
  else return { common := p.common.globals, processMode := p.processMode, usePipes := p.usePipes }

/-! ## The command line of a trial -/

/-- The global variables of the hackbench of a trial. -/
def trialGlobals (pairs : Int) (core : Int32) : Globals where
  common :=
    { datasize := 100000
      numGroups := (Int32.ofInt pairs).toUInt32
      numFds := 20
      coreToPin := core
      isInfinite := true }

/-- What hackbench complains about. -/
def complaints (pairs : Int) : List (List Char) :=
  if pairs = 0 then [complaint "--groups|-g requires an integer > 0"] else []

section
variable {pairs : Int} {pinned : Prop} [Decidable pinned]

/-- What `getopt_long` finds. -/
theorem calls_trial (v : List Char) :
    calls optstring longopts ⟨[], ['-', 's'] :: "100000".toList :: ['-', 'g'] :: v ::
        ['-', 'i'] :: if pinned then [['-', 'a']] else []⟩ =
      .option 's' (some "100000".toList) none :: .option 'g' (some v) none ::
        .option 'i' none none :: if pinned then [.option 'a' none none] else [] := by
  rw [calls_option (getoptLong_short (by decide) (by decide)),
    calls_option (getoptLong_short (by decide) (by decide)),
    calls_option (getoptLong_flag (by decide) (by decide))]
  split
  · rw [calls_option (getoptLong_flag (by decide) (by decide)), calls_done getoptLong_nil]
  · rw [calls_done getoptLong_nil]

/-- `-s 100000`. -/
theorem processOption_datasize (argv : List (List Char)) :
    processOption ("hackbench".toList :: argv) {} (.option 's' (some "100000".toList) none) =
      .ok { common := { globals := { datasize := 100000, numFds := 20 } } } := by
  have hread : atoi "100000".toList = 100000 := by decide
  show (Hackbench.processDatasize _ 0 _ _ >>= _) = _
  rw [Hackbench.processDatasize, Hackbench.positiveOption_some (Nat.succ_pos _), hread]
  rfl

/-- `-g` with the number of pairs: only `0` is refused. -/
theorem processOption_groups (hpairs : IsInt pairs) (argv : List (List Char)) :
    processOption ("hackbench".toList :: argv)
        { common := { globals := { datasize := 100000, numFds := 20 } } }
        (.option 'g' (some (toString pairs).toList) none) =
      .ok { common :=
        { globals := { (trialGlobals pairs (-1)).common with isInfinite := false }
          error := decide (pairs = 0)
          stderr := complaints pairs } } := by
  show (Hackbench.processGroups _ 0 _ _ >>= _) = _
  rw [Hackbench.processGroups, Hackbench.positiveOption_some (Nat.succ_pos _),
    atoi_toString hpairs]
  by_cases hzero : pairs = 0
  · subst hzero
    rfl
  · rw [if_neg fun h => hzero ((Launcher.ofInt_eq_zero_iff hpairs).1 h), complaints,
      if_neg hzero, decide_eq_false hzero]
    rfl

/-- The options of a trial, one after the other. -/
theorem foldlM_trial (hpairs : IsInt pairs) (argv : List (List Char)) :
    List.foldlM (processOption ("hackbench".toList :: argv)) {}
        (.option 's' (some "100000".toList) none ::
          .option 'g' (some (toString pairs).toList) none :: .option 'i' none none ::
          if pinned then [.option 'a' none none] else []) =
      .ok { common :=
        { globals := (trialGlobals pairs (if pinned then 0 else -1)).common
          error := decide (pairs = 0)
          stderr := complaints pairs } } := by
  rw [List.foldlM_cons, processOption_datasize]
  show List.foldlM _ _ _ = _
  rw [List.foldlM_cons, processOption_groups hpairs]
  by_cases hpin : pinned
  · simp only [if_pos hpin]
    rfl
  · simp only [if_neg hpin]
    rfl

/-- The toy hackbench reads the command line of a trial: its pairs, and core `0` exactly when the
launcher was asked for it with a `1`. It refuses no number of pairs but `0`. -/
theorem processOptions_hackbenchImage (args : Toy.Args) (hpairs : IsInt pairs) :
    processOptions ((Toy.hackbenchImage args pairs).argv.map String.toList) =
      if pairs = 0 then .error (.errorExit [complaint "--groups|-g requires an integer > 0"])
      else .ok (trialGlobals pairs (if args.pinToCore = 1 then 0 else -1)) := by
  have hargv : (Toy.hackbenchImage args pairs).argv.map String.toList =
      "hackbench".toList :: ['-', 's'] :: "100000".toList :: ['-', 'g'] ::
        (toString pairs).toList :: ['-', 'i'] ::
        if args.pinToCore = 1 then [['-', 'a']] else [] := by
    unfold Toy.hackbenchImage
    split <;> rfl
  rw [processOptions, hargv, List.tail_cons, calls_trial, foldlM_trial hpairs]
  show (if decide (pairs = 0) = true then _ else _) = _
  by_cases hzero : pairs = 0
  · rw [if_pos hzero, if_pos (decide_eq_true hzero), complaints, if_pos hzero]
  · rw [if_neg hzero, decide_eq_false hzero, if_neg Bool.false_ne_true]
    rfl

end

end ToyHackbench
