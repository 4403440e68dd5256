import SchedulerComparison.Hackbench.Main
import SchedulerComparison.Lib.CxxString
import SchedulerComparison.Lib.Getopt

/-!
# `process_options` of hackbench

`process_options` (`hackbench.c:307`) calls `getopt_long` until it returns `-1`. Its local variable
`optind` hides the one of `getopt_long`; it is set to `0` before each call, and the call stores the
index of a long option there. A check for a missing argument looks at `argv[optind]`, and the check
for a number greater than `0` compares an `unsigned int`, so that only `0` fails it. Every option is
handled, also after an error, and a number is stored before it is checked.
-/

open CxxString Getopt

namespace Hackbench

/-- The global variables that the options set (`hackbench.c:36-44`). -/
structure Globals where
  datasize : UInt32 := 100
  loops : UInt32 := 100
  numGroups : UInt32 := 10
  numFds : UInt32 := 1
  fifo : Bool := false
  coreToPin : Int32 := -1
  isInfinite : Bool := false
  deriving DecidableEq

/-- The ways `process_options` ends other than by returning. -/
inductive ProcessStop where
  /-- `print_usage_exit()`. -/
  | usageExit
  /-- `exit(1)`, after the lines `stderr`. -/
  | errorExit (stderr : List (List Char))
  /-- A read behind the end of `argv`, which has no meaning. -/
  | undefined
  deriving DecidableEq

/-- What the loop changes: the global variables, `error`, and the lines it has printed to
`stderr`. -/
structure Processed where
  globals : Globals := {}
  error : Bool := false
  stderr : List (List Char) := []
  deriving DecidableEq

/-- `!argv[i]`: there are `argc` elements and a null pointer behind them. -/
def argvNull (argc i : Nat) : Except ProcessStop Bool :=
  if i < argc then .ok false else if i = argc then .ok true else .error .undefined

/-- `fprintf(stderr, "%s: ...", argv[0])` and `error = 1`. -/
def Processed.complain (argv : List (List Char)) (text : String) (p : Processed) : Processed :=
  { p with error := true, stderr := p.stderr ++ [argv.headD [] ++ ": ".toList ++ text.toList] }

/-- `atoi(optarg)`. An option with an argument has one. -/
def atoiArg : Option (List Char) → Except ProcessStop Int32
  | some v => .ok (atoi v)
  | none => .error .undefined

/-- A case of the `switch` for an option that takes a number greater than `0`. -/
def positiveOption (argv : List (List Char)) (optind : Nat) (optarg : Option (List Char))
    (text : String) (store : UInt32 → Globals → Globals) (p : Processed) :
    Except ProcessStop Processed := do
  if ← argvNull argv.length optind then return p.complain argv text
  let n := (← atoiArg optarg).toUInt32
  let p := { p with globals := store n p.globals }
  return if 0 < n then p else p.complain argv text

/-- `case 's'` (`hackbench.c:330`). -/
def processDatasize (argv : List (List Char)) (optind : Nat) (optarg : Option (List Char))
    (p : Processed) : Except ProcessStop Processed :=
  positiveOption argv optind optarg "--datasize|-s requires an integer > 0"
    (fun n g => { g with datasize := n }) p

/-- `case 'l'` (`hackbench.c:337`). -/
def processLoops (argv : List (List Char)) (optind : Nat) (optarg : Option (List Char))
    (p : Processed) : Except ProcessStop Processed :=
  positiveOption argv optind optarg "--loops|-l requires an integer > 0"
    (fun n g => { g with loops := n }) p

/-- `case 'g'` (`hackbench.c:344`). -/
def processGroups (argv : List (List Char)) (optind : Nat) (optarg : Option (List Char))
    (p : Processed) : Except ProcessStop Processed :=
  positiveOption argv optind optarg "--groups|-g requires an integer > 0"
    (fun n g => { g with numGroups := n }) p

/-- `case 'f'` (`hackbench.c:351`). -/
def processFds (argv : List (List Char)) (optind : Nat) (optarg : Option (List Char))
    (p : Processed) : Except ProcessStop Processed :=
  positiveOption argv optind optarg "--fds|-f requires an integer > 0"
    (fun n g => { g with numFds := n }) p

/-- `case 'p'` (`hackbench.c:362`). -/
def processPin (argv : List (List Char)) (optind : Nat) (optarg : Option (List Char))
    (p : Processed) : Except ProcessStop Processed := do
  if ← argvNull argv.length optind then
    return p.complain argv "--pin|-p requires an integer >= 0"
  let core ← atoiArg optarg
  let p := { p with globals := { p.globals with coreToPin := core } }
  return if core < 0 then p.complain argv "--pin|-p requires an integer >= 0" else p

/-- The `switch` (`hackbench.c:329-380`), given what `getopt_long` has found. -/
def processOption (argv : List (List Char)) (p : Processed) : Found → Except ProcessStop Processed
  | .done => .ok p
  | .unknown => .ok { p with error := true }
  | .option c optarg longindex =>
    let optind := longindex.getD 0
    match c with
    | 's' => processDatasize argv optind optarg p
    | 'l' => processLoops argv optind optarg p
    | 'g' => processGroups argv optind optarg p
    | 'f' => processFds argv optind optarg p
    | 'F' => .ok { p with globals := { p.globals with fifo := true } }
    | 'p' => processPin argv optind optarg p
    | 'i' => .ok { p with globals := { p.globals with isInfinite := true } }
    | 'h' => .error .usageExit
    | _ => .ok { p with error := true }

/-- The short options (`hackbench.c:325`). -/
def optstring : List Char := "s:l:g:f:Fhp:i".toList

/-- The long options (`hackbench.c:313-323`). -/
def longopts : List LongOption :=
  [⟨"datasize".toList, true, 's'⟩, ⟨"loops".toList, true, 'l'⟩, ⟨"groups".toList, true, 'g'⟩,
    ⟨"fds".toList, true, 'f'⟩, ⟨"fifo".toList, false, 'F'⟩, ⟨"help".toList, false, 'h'⟩,
    ⟨"pin".toList, true, 'p'⟩, ⟨"infinite".toList, false, 'i'⟩]

/-- `process_options(argc, argv)` (`hackbench.c:307`). -/
def processOptions (argv : List (List Char)) : Except ProcessStop Globals := do
  let p ← (calls optstring longopts ⟨[], argv.tail⟩).foldlM (processOption argv) {}
  if p.error then .error (.errorExit p.stderr) else return p.globals

/-! ## What is accepted -/

/-- The values that the checks are for: numbers greater than `0`, and a core that is `-1` only where
no core was given. -/
structure Globals.Valid (g : Globals) : Prop where
  datasize : 0 < g.datasize
  loops : 0 < g.loops
  numGroups : 0 < g.numGroups
  numFds : 0 < g.numFds
  coreToPin : -1 ≤ g.coreToPin

/-- A positive number is at least one. -/
theorem one_le_of_pos {n : UInt32} (h : 0 < n) : 1 ≤ n :=
  UInt32.le_iff_toNat_le.2 (UInt32.lt_iff_toNat_lt.1 h)

section
variable {argv : List (List Char)} {optind : Nat} {optarg : Option (List Char)} {p p' : Processed}

/-- Unless an error was found, the values are valid. -/
def Processed.Checked (p : Processed) : Prop := p.error = false → p.globals.Valid

/-- An error that is reported is an error. -/
theorem Processed.checked_complain (text : String) : (p.complain argv text).Checked :=
  fun h => Bool.noConfusion h

/-- A positive number is stored where it is valid. -/
theorem positiveOption_checked {text : String} {store : UInt32 → Globals → Globals}
    (hstore : ∀ n g, 0 < n → g.Valid → (store n g).Valid) (hp : p.Checked)
    (h : positiveOption argv optind optarg text store p = .ok p') : p'.Checked := by
  obtain ⟨missing, -, h⟩ := bind_eq_ok h
  cases missing with
  | true =>
    cases h
    exact Processed.checked_complain text
  | false =>
    obtain ⟨n, -, h⟩ := bind_eq_ok h
    cases h
    split
    · next hpos => exact fun herr => hstore _ _ hpos (hp herr)
    · exact Processed.checked_complain text

theorem processPin_checked (hp : p.Checked) (h : processPin argv optind optarg p = .ok p') :
    p'.Checked := by
  obtain ⟨missing, -, h⟩ := bind_eq_ok h
  cases missing with
  | true =>
    cases h
    exact Processed.checked_complain _
  | false =>
    obtain ⟨core, -, h⟩ := bind_eq_ok h
    cases h
    split
    · exact Processed.checked_complain _
    · next hpos =>
      have hle : (-1 : Int32) ≤ 0 := by decide
      exact fun herr => { hp herr with coreToPin := Int32.le_trans hle (Int32.not_lt.1 hpos) }

theorem processOption_checked (found : Found) (hp : p.Checked)
    (h : processOption argv p found = .ok p') : p'.Checked := by
  unfold processOption at h
  split at h
  · cases h
    exact hp
  · cases h
    exact fun herr => Bool.noConfusion herr
  · dsimp only at h
    split at h
    · refine positiveOption_checked ?_ hp h
      exact fun n g hn hg => { hg with datasize := hn }
    · refine positiveOption_checked ?_ hp h
      exact fun n g hn hg => { hg with loops := hn }
    · refine positiveOption_checked ?_ hp h
      exact fun n g hn hg => { hg with numGroups := hn }
    · refine positiveOption_checked ?_ hp h
      exact fun n g hn hg => { hg with numFds := hn }
    · cases h
      exact fun herr => { hp herr with }
    · exact processPin_checked hp h
    · cases h
      exact fun herr => { hp herr with }
    · cases h
    · cases h
      exact fun herr => Bool.noConfusion herr

/-- A number passes the check unless it is `0`; a negative one is stored as a large one. -/
theorem positiveOption_some (hlt : optind < argv.length) (v : List Char) (text : String)
    (store : UInt32 → Globals → Globals) :
    positiveOption argv optind (some v) text store p =
      .ok (if atoi v = 0 then
          { p with globals := store 0 p.globals }.complain argv text
        else { p with globals := store (atoi v).toUInt32 p.globals }) := by
  have hmissing : argvNull argv.length optind = .ok false := if_pos hlt
  rw [positiveOption, hmissing]
  show Except.ok (if 0 < (atoi v).toUInt32 then _ else _) = _
  by_cases hzero : atoi v = 0
  · rw [hzero]
    rfl
  · have hpos : 0 < (atoi v).toUInt32 := by
      refine UInt32.lt_iff_toNat_lt.2 (Nat.pos_of_ne_zero fun h => hzero ?_)
      have hu : (atoi v).toUInt32 = 0 := UInt32.toNat_inj.1 h
      exact (Int32.toInt32_toUInt32 (atoi v)).symm.trans (congrArg UInt32.toInt32 hu)
    rw [if_pos hpos, if_neg hzero]

/-- The core is stored, and a negative one is an error. -/
theorem processPin_some (hlt : optind < argv.length) (v : List Char) :
    processPin argv optind (some v) p =
      .ok (if atoi v < 0 then
          { p with globals := { p.globals with coreToPin := atoi v } }.complain argv
            "--pin|-p requires an integer >= 0"
        else { p with globals := { p.globals with coreToPin := atoi v } }) := by
  have hmissing : argvNull argv.length optind = .ok false := if_pos hlt
  rw [processPin, hmissing]
  rfl

example : processOption [[], [], []] {} (.option 'g' (some ['-', '1']) none) =
    .ok { globals := { numGroups := 4294967295 } } := by decide

/-- What `process_options` accepts is valid. -/
theorem processOptions_valid {g : Globals} (h : processOptions argv = .ok g) : g.Valid := by
  obtain ⟨p, hp, h⟩ := bind_eq_ok h
  have hstart : Processed.Checked {} := fun _ => by constructor <;> decide
  have hchecked : p.Checked :=
    foldlM_invariant (I := Processed.Checked) (fun _ found _ hi => processOption_checked found hi)
      hstart hp
  split at h
  · cases h
  · next herr =>
    cases h
    exact hchecked (Bool.eq_false_iff.2 herr)

/-- What `main` depends on. -/
def Globals.options (g : Globals) (h : g.Valid) : Options where
  numGroups := g.numGroups
  numFds := g.numFds
  fifo := g.fifo
  one_le_numGroups := one_le_of_pos h.numGroups
  one_le_numFds := one_le_of_pos h.numFds

end

end Hackbench
