import SchedulerComparison.Lib.OptionLoop

/-!
# The command lines of the client and of the trackers

`parse_args` of `http_client.cpp` (line 142) and of `sched_tracker.cpp` and `time_tracker.cpp`
(line 25, with one text) have the loop of the launchers: their variable `optind` hides the one of
`getopt_long` and holds the index of the last long option, and the check for a missing argument
looks at `argv[optind]`. `parseArgs_exactly` is about every command line: the check misses its aim
for a lone `--file=f` of the client and a lone `--time=t` of a tracker, in full or abbreviated, and
does nothing else. The client is started by two scripts with `-i` and `-n`, and gets what they ask
for.
-/

open CxxString Getopt OptionLoop

/-! ## The programs -/

namespace HttpClient

/-- `struct Args` (`http_client.cpp:131`). -/
structure Args where
  ivp4Addr : List Char := "127.0.0.1".toList
  numRequests : Int := 100
  outputFile : List Char := "request.log".toList
  deriving DecidableEq

/-- The options (`http_client.cpp:147-199`). The complaints name other options. -/
def options : Options Args where
  optstring := "i:n:f:h".toList
  longopts := [⟨"ip".toList, true, 'i'⟩, ⟨"num".toList, true, 'n'⟩, ⟨"file".toList, true, 'f'⟩,
    ⟨"help".toList, false, 'h'⟩]
  withArg
    | 'i' => some ⟨"Missing arg for -c".toList, fun v args => .ok { args with ivp4Addr := v }⟩
    | 'f' => some ⟨"Missing arg for -f".toList, fun v args => .ok { args with outputFile := v }⟩
    | 'n' => some ⟨"Missing arg for -t".toList,
        fun v args => return { args with numRequests := ← parseInt v }⟩
    | _ => none

/-- `parse_args(argc, argv)` (`http_client.cpp:142`). -/
def parseArgs (argv : List (List Char)) : Except Stop Args := options.parse {} argv

end HttpClient

namespace TimeTracker

/-- `struct Args` (`sched_tracker.cpp:19`). -/
structure Args where
  coreToPin : Int := 0
  outputFile : List Char := "tracker.log".toList
  maxDuration : Int := 1000
  deriving DecidableEq

/-- The options (`sched_tracker.cpp:30-83`). -/
def options : Options Args where
  optstring := "c:f:t:h".toList
  longopts := [⟨"core".toList, true, 'c'⟩, ⟨"file".toList, true, 'f'⟩, ⟨"time".toList, true, 't'⟩,
    ⟨"help".toList, false, 'h'⟩]
  withArg
    | 'c' => some ⟨"Missing arg for -c".toList,
        fun v args => return { args with coreToPin := ← parseInt v }⟩
    | 'f' => some ⟨"Missing arg for -f".toList, fun v args => .ok { args with outputFile := v }⟩
    | 't' => some ⟨"Missing arg for -t".toList,
        fun v args => return { args with maxDuration := ← parseInt v }⟩
    | _ => none

/-- `parse_args(argc, argv)` (`sched_tracker.cpp:25`). -/
def parseArgs (argv : List (List Char)) : Except Stop Args := options.parse {} argv

end TimeTracker

/-! ## What they make of their command lines -/

namespace HttpClient

theorem few_options : options.Few := ⟨by decide, rfl⟩

/-- The check misfires for `file`. -/
theorem third_options : options.Third "file".toList "Missing arg for -f".toList :=
  ⟨by decide, by decide, by decide, by decide⟩

/-- The scripts `pi_launcher.py` and `server_launcher.py` ask for an address and a number of
requests. -/
theorem parseArgs_scripts (prog address : List Char) (n : Int32) :
    parseArgs [prog, "-i".toList, address, "-n".toList, (toString n.toInt).toList] =
      .ok { ivp4Addr := address, numRequests := n.toInt } := by
  have hrange : InRange (Integer.ofInt n.toInt).value := by
    rw [Integer.value_ofInt]
    exact ⟨n.le_toInt, n.toInt_lt⟩
  have hnum : parseInt (toString n.toInt).toList = .ok n.toInt := by
    have hstarts := starts_text 0 hrange
    rw [Integer.value_ofInt, Integer.text_ofInt, List.replicate_zero, List.nil_append] at hstarts
    rw [parseInt, (stoi_eq_ok_iff _ _).2 hstarts]
    rfl
  have hcalls : calls options.optstring options.longopts
      ⟨[], [['-', 'i'], address, ['-', 'n'], (toString n.toInt).toList]⟩ =
        [.option 'i' (some address) none, .option 'n' (some (toString n.toInt).toList) none] := by
    rw [calls_option (getoptLong_short (by decide) (by decide)),
      calls_option (getoptLong_short (by decide) (by decide)), calls_done getoptLong_nil]
  show ((calls options.optstring options.longopts _).foldlM _ _ >>= _) = _
  rw [List.tail_cons]
  show ((calls options.optstring options.longopts
    ⟨[], [['-', 'i'], address, ['-', 'n'], (toString n.toInt).toList]⟩).foldlM _ _ >>= _) = _
  rw [hcalls, List.foldlM_cons]
  show (([Found.option 'n' (some (toString n.toInt).toList) none].foldlM _ _) >>= _) = _
  rw [List.foldlM_cons]
  show (((parseInt (toString n.toInt).toList >>= _) >>= _) >>= _) >>= _ = _
  rw [hnum]
  rfl

end HttpClient

namespace TimeTracker

theorem few_options : options.Few := ⟨by decide, rfl⟩

/-- The check misfires for `time`. -/
theorem third_options : options.Third "time".toList "Missing arg for -t".toList :=
  ⟨by decide, by decide, by decide, by decide⟩

end TimeTracker

/-- The check for a missing argument turns away a lone `--file=f` of the client and a lone
`--time=t` of a tracker, and changes nothing for any other command line. -/
theorem OptionLoop.parseArgs_exactly :
    (∀ argv, ParsesBut HttpClient.parseArgs (HttpClient.options.parseUnchecked {})
      "file".toList "Missing arg for -f".toList argv) ∧
    (∀ argv, ParsesBut TimeTracker.parseArgs (TimeTracker.options.parseUnchecked {})
      "time".toList "Missing arg for -t".toList argv) ∧
    ∀ (prog address : List Char) (n : Int32),
      HttpClient.parseArgs [prog, "-i".toList, address, "-n".toList, (toString n.toInt).toList] =
        .ok { ivp4Addr := address, numRequests := n.toInt } :=
  ⟨HttpClient.third_options.parsesBut HttpClient.few_options {},
    TimeTracker.third_options.parsesBut TimeTracker.few_options {},
    HttpClient.parseArgs_scripts⟩
