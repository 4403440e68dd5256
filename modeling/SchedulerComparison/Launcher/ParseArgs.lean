import SchedulerComparison.Launcher.RunTrial
import SchedulerComparison.Lib.CxxString
import SchedulerComparison.Lib.Getopt

/-!
# `parse_args` of the two C++ launchers

`parse_args` (`launcher.cpp:116`, with the same text at `hackbench_interupt.cpp:150`) calls
`getopt_long` until it returns `-1`. Its local variable `optind` hides the one of `getopt_long`,
which stores the index of a long option there and nothing for a short one; the check for a missing
argument looks at `argv[optind]`, and so at an element that has nothing to do with the option.
`fstream` is left out: opening a file that cannot be opened throws nothing.
-/

open CxxString Getopt

namespace Launcher

/-- The ways `parse_args` ends other than by returning. -/
inductive ParseStop where
  /-- `print_usage_and_exit()`. -/
  | usageExit
  /-- An exception of `std::stoi`, which nothing catches. -/
  | stoiThrows (error : StoiError)
  /-- `std::out_of_range`, thrown by `substr`. -/
  | substrThrows
  /-- A read behind the end of a vector or of `argv`, which has no meaning. -/
  | undefined
  deriving DecidableEq

/-- `std::stoi`. -/
def parseInt (s : List Char) : Except ParseStop Int := (stoi s).mapError .stoiThrows

/-- `s.substr(pos, n)`. -/
def parseSubstr (s : List Char) (pos n : Nat) : Except ParseStop (List Char) :=
  match substr s pos n with
  | some t => .ok t
  | none => .error .substrThrows

/-- The loop of `string_to_vec_by_delim` (`launcher.cpp:70`), from the position `last` on. The next
search starts one character behind a delimiter, whatever its length. -/
def stringToVecLoop (s delimiter : List Char) (last : Nat) : Except ParseStop (List (List Char)) :=
  match h : find s delimiter last with
  | some next => do
    let piece ← parseSubstr s last (next - last)
    let res ← stringToVecLoop s delimiter (next + 1)
    return piece :: res
  | none => do
    let piece ← parseSubstr s last s.length
    return [piece]
termination_by s.length + 1 - last
decreasing_by
  have := find_bounds h
  omega

/-- `string_to_vec_by_delim` (`launcher.cpp:64`). -/
def stringToVecByDelim (s delimiter : List Char) : Except ParseStop (List (List Char)) :=
  stringToVecLoop s delimiter 0

/-- `v[i]` of a vector, which is not checked. -/
def vectorAt (v : List (List Char)) (i : Nat) : Except ParseStop (List Char) :=
  match v[i]? with
  | some x => .ok x
  | none => .error .undefined

/-- `n - 2` of a `size_t`, which wraps around below zero. -/
def sizeSubTwo (n : Nat) : Nat := if 2 ≤ n then n - 2 else n + 2 ^ 64 - 2

/-- The group count of `-g` (`launcher.cpp:147-158`). -/
def setGroups (groups : List Char) (args : Args) : Except ParseStop Args :=
  if groups.head? = some '(' then do
    let groups ← parseSubstr groups 1 (sizeSubTwo groups.length)
    let tup ← stringToVecByDelim groups [',']
    let lower ← parseInt (← vectorAt tup 0)
    let upper ← parseInt (← vectorAt tup 1)
    let step ← parseInt (← vectorAt tup 2)
    return { args with
      groupsLowerBound := lower, groupsUpperBound := upper, groupsStepSize := step }
  else do
    let numGroup ← parseInt groups
    return { args with groupsLowerBound := numGroup, groupsUpperBound := numGroup }

/-- The core of `-p` (`launcher.cpp:168`). -/
def setPin (proc : List Char) (args : Args) : Except ParseStop Args := do
  return { args with coreToPinTo := ← parseInt proc }

/-- The repetitions of `-r` (`launcher.cpp:178`). -/
def setReps (reps : List Char) (args : Args) : Except ParseStop Args := do
  return { args with reps := ← parseInt reps }

/-- The output file of `-f` (`launcher.cpp:187-191`). -/
def setFile (file : List Char) (args : Args) : Except ParseStop Args :=
  return { args with fileName := String.ofList file, fileValid := true }

/-- The path of `-H` (`launcher.cpp:200`). -/
def setHack (path : List Char) (args : Args) : Except ParseStop Args :=
  return { args with hackbenchAbsPath := String.ofList path }

/-- The variables of `parse_args`. -/
structure Parse where
  args : Args := {}
  error : Bool := false
  optind : Nat := 0

/-- `!argv[i]`: there are `argc` elements and a null pointer behind them. -/
def argvNull (argc i : Nat) : Except ParseStop Bool :=
  if i < argc then .ok false else if i = argc then .ok true else .error .undefined

/-- A case of the `switch` for an option with an argument: the check for a missing argument, and
what `set` does with `optarg`. -/
def optionWithArg (argc : Nat) (optarg : Option (List Char))
    (set : List Char → Args → Except ParseStop Args) (p : Parse) : Except ParseStop Parse := do
  if ← argvNull argc p.optind then return { p with error := true }
  match optarg with
  | some v => return { p with args := ← set v p.args }
  | none => .error .undefined

/-- `switch(c)` (`launcher.cpp:140-209`). -/
def parseOption (argc : Nat) (c : Char) (optarg : Option (List Char)) (p : Parse) :
    Except ParseStop Parse :=
  match c with
  | 'g' => optionWithArg argc optarg setGroups p
  | 'p' => optionWithArg argc optarg setPin p
  | 'r' => optionWithArg argc optarg setReps p
  | 'f' => optionWithArg argc optarg setFile p
  | 'H' => optionWithArg argc optarg setHack p
  | 'h' => .error .usageExit
  | _ => .ok { p with error := true }

/-- The short options (`launcher.cpp:134`). -/
def optstring : List Char := "g:p:r:f:H:h".toList

/-- The long options (`launcher.cpp:124-132`). -/
def longopts : List LongOption :=
  [⟨"groups".toList, true, 'g'⟩, ⟨"pin".toList, true, 'p'⟩, ⟨"reps".toList, true, 'r'⟩,
    ⟨"file".toList, true, 'f'⟩, ⟨"hack".toList, true, 'H'⟩, ⟨"help".toList, false, 'h'⟩]

/-- The loop of `parse_args` (`launcher.cpp:123-211`). -/
def parseLoop (argc : Nat) (p : Parse) (s : Scan) : Except ParseStop Parse :=
  match _h : getoptLong optstring longopts s with
  | (.done, _) => .ok p
  | (.unknown, s') => do
    let p ← parseOption argc '?' none p
    parseLoop argc p s'
  | (.option c optarg longindex, s') => do
    let p ← parseOption argc c optarg { p with optind := longindex.getD p.optind }
    parseLoop argc p s'
termination_by s.size
decreasing_by
  all_goals
    have hsize := @size_getoptLong optstring longopts s
    rw [_h] at hsize
    simpa using hsize

/-- `parse_args(argc, argv)` (`launcher.cpp:116`). -/
def parseArgs (argv : List (List Char)) : Except ParseStop Args := do
  let p ← parseLoop argv.length {} ⟨[], argv.tail⟩
  if p.error then .error .usageExit else return p.args

/-! ## Steps of the loop -/

section
variable {argc : Nat} {p : Parse} {s s' : Scan}

/-- The loop ends with the options. -/
theorem parseLoop_done (h : getoptLong optstring longopts s = (.done, s')) :
    parseLoop argc p s = .ok p := by
  unfold parseLoop
  split <;> simp_all

/-- An option is handled, and the loop goes on. -/
theorem parseLoop_option {c : Char} {optarg : Option (List Char)} {longindex : Option Nat}
    (h : getoptLong optstring longopts s = (.option c optarg longindex, s')) :
    parseLoop argc p s =
      parseOption argc c optarg { p with optind := longindex.getD p.optind } >>=
        fun p => parseLoop argc p s' := by
  rw [parseLoop]
  split
  · simp_all
  · simp_all
  · next h' =>
    rw [h] at h'
    cases h'
    rfl

theorem argvNull_of_lt {i : Nat} (h : i < argc) : argvNull argc i = .ok false := if_pos h

/-- Where `argv[optind]` is an argument, it is not missing. -/
theorem optionWithArg_of_lt (h : p.optind < argc) (v : List Char)
    (set : List Char → Args → Except ParseStop Args) :
    optionWithArg argc (some v) set p =
      set v p.args >>= fun args => .ok { p with args := args } := by
  rw [optionWithArg, argvNull_of_lt h]
  rfl

/-- The loop at `-g v`. -/
theorem parseLoop_groups (h : p.optind < argc) (v : List Char) (rest : List (List Char)) :
    parseLoop argc p ⟨[], ['-', 'g'] :: v :: rest⟩ =
      setGroups v p.args >>= fun args => parseLoop argc { p with args := args } ⟨[], rest⟩ := by
  rw [parseLoop_option (getoptLong_short (by decide) (by decide))]
  show (optionWithArg argc (some v) setGroups p >>= _) = _
  rw [optionWithArg_of_lt h]
  cases setGroups v p.args <;> rfl

/-- A command line with `-g v` only. -/
theorem parseArgs_groups (prog v : List Char) :
    parseArgs [prog, ['-', 'g'], v] = setGroups v {} := by
  have hloop := @parseLoop_groups 3 {} (by decide) v []
  unfold parseArgs
  simp only [List.length_cons, List.length_nil, List.tail_cons, Nat.reduceAdd, hloop]
  cases setGroups v {} with
  | error e => rfl
  | ok args =>
    show (parseLoop 3 { args := args } ⟨[], []⟩ >>= _) = _
    rw [parseLoop_done getoptLong_nil]
    rfl

end

/-! ## The numbers are `int`s -/

/-- The numbers among the arguments are `int`s. -/
structure Args.AreInts (args : Args) : Prop where
  groupsLowerBound : IsInt args.groupsLowerBound
  groupsUpperBound : IsInt args.groupsUpperBound
  groupsStepSize : IsInt args.groupsStepSize
  coreToPinTo : IsInt args.coreToPinTo
  reps : IsInt args.reps

section
variable {argc : Nat} {p p' : Parse} {args args' : Args} {v : List Char}

/-- `std::stoi` reads an `int`. -/
theorem parseInt_isInt {i : Int} (h : parseInt v = .ok i) : IsInt i := by
  unfold parseInt at h
  cases hs : stoi v with
  | ok j =>
    rw [hs] at h
    obtain rfl := Except.ok.inj h
    obtain ⟨-, -, -, -, -, -, -, hrange⟩ := (stoi_eq_ok_iff v j).1 hs
    exact hrange
  | error e =>
    rw [hs] at h
    cases h

theorem setGroups_areInts (hargs : args.AreInts) (h : setGroups v args = .ok args') :
    args'.AreInts := by
  unfold setGroups at h
  split at h
  · obtain ⟨groups, -, h⟩ := bind_eq_ok h
    obtain ⟨tup, -, h⟩ := bind_eq_ok h
    obtain ⟨p₀, -, h⟩ := bind_eq_ok h
    obtain ⟨lo, hlo, h⟩ := bind_eq_ok h
    obtain ⟨p₁, -, h⟩ := bind_eq_ok h
    obtain ⟨hi, hhi, h⟩ := bind_eq_ok h
    obtain ⟨p₂, -, h⟩ := bind_eq_ok h
    obtain ⟨step, hstep, h⟩ := bind_eq_ok h
    cases h
    exact { hargs with
      groupsLowerBound := parseInt_isInt hlo
      groupsUpperBound := parseInt_isInt hhi
      groupsStepSize := parseInt_isInt hstep }
  · obtain ⟨n, hn, h⟩ := bind_eq_ok h
    cases h
    exact { hargs with
      groupsLowerBound := parseInt_isInt hn
      groupsUpperBound := parseInt_isInt hn }

theorem setPin_areInts (hargs : args.AreInts) (h : setPin v args = .ok args') : args'.AreInts := by
  obtain ⟨core, hcore, h⟩ := bind_eq_ok h
  cases h
  exact { hargs with coreToPinTo := parseInt_isInt hcore }

theorem setReps_areInts (hargs : args.AreInts) (h : setReps v args = .ok args') :
    args'.AreInts := by
  obtain ⟨reps, hreps, h⟩ := bind_eq_ok h
  cases h
  exact { hargs with reps := parseInt_isInt hreps }

theorem optionWithArg_areInts {set : List Char → Args → Except ParseStop Args}
    {optarg : Option (List Char)}
    (hset : ∀ {v args args'}, args.AreInts → set v args = .ok args' → args'.AreInts)
    (hp : p.args.AreInts) (h : optionWithArg argc optarg set p = .ok p') : p'.args.AreInts := by
  obtain ⟨missing, -, h⟩ := bind_eq_ok h
  cases missing with
  | true => cases h; exact hp
  | false =>
    cases optarg with
    | none => cases h
    | some v =>
      obtain ⟨args, hargs, h⟩ := bind_eq_ok h
      cases h
      exact hset hp hargs

theorem parseOption_areInts {c : Char} {optarg : Option (List Char)} (hp : p.args.AreInts)
    (h : parseOption argc c optarg p = .ok p') : p'.args.AreInts := by
  unfold parseOption at h
  split at h
  · exact optionWithArg_areInts setGroups_areInts hp h
  · exact optionWithArg_areInts setPin_areInts hp h
  · exact optionWithArg_areInts setReps_areInts hp h
  · refine optionWithArg_areInts (fun hargs hset => ?_) hp h
    cases hset
    exact { hargs with }
  · refine optionWithArg_areInts (fun hargs hset => ?_) hp h
    cases hset
    exact { hargs with }
  · cases h
  · cases h
    exact hp

theorem parseLoop_areInts {s : Scan} (hp : p.args.AreInts) (h : parseLoop argc p s = .ok p') :
    p'.args.AreInts := by
  induction hn : s.size using Nat.strongRecOn generalizing p s with
  | ind n ih =>
    have hsize := @size_getoptLong optstring longopts s
    rw [parseLoop] at h
    split at h
    · cases h
      exact hp
    · next s' hs =>
      rw [hs] at hsize
      obtain ⟨p₁, hp₁, h⟩ := bind_eq_ok h
      exact ih s'.size (by simpa [hn] using hsize) (parseOption_areInts hp hp₁) h rfl
    · next c optarg i s' hs =>
      rw [hs] at hsize
      obtain ⟨p₁, hp₁, h⟩ := bind_eq_ok h
      have hints := parseOption_areInts (p := { p with optind := i.getD p.optind }) hp hp₁
      exact ih s'.size (by simpa [hn] using hsize) hints h rfl

/-- The numbers that `parse_args` returns are `int`s. -/
theorem parseArgs_areInts {argv : List (List Char)} (h : parseArgs argv = .ok args) :
    args.AreInts := by
  obtain ⟨p, hp, h⟩ := bind_eq_ok h
  split at h
  · cases h
  · cases h
    refine parseLoop_areInts (p := {}) ⟨?_, ?_, ?_, ?_, ?_⟩ hp <;> decide

end

end Launcher
