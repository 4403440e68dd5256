import SchedulerComparison.Lib.FixedNotation
import SchedulerComparison.Launcher.Measurement
import SchedulerComparison.Launcher.Signals

/-!
# The results file

`run_trial` of `launcher.cpp` writes the duration that `run_prog` returned to the stream of the
file, in milliseconds with twelve decimals, when the waited pid is the spawned one.
`output_file_to_data` of `plotter.py` reads the file back (`outputFileToData`). `results_read_back`
follows the two across a whole run whose file could be opened: what is read are the durations that
`run_prog` returned in these trials, in the order of the trials. `parse_args` does not look whether
the file could be opened, and then the durations are lost (`results_lost`). `std::endl` leaves
nothing behind in the stream that a forked child could write again or that is lost when the launcher
aborts, so that the text of the file is that of its lines.

Arithmetic is exact: a duration of `n` nanoseconds is `n / 10^6` milliseconds, and a float is a
rational number.
-/

open Posix Posix.Sys Transition Text

namespace Launcher

/-! ## What is written -/

/-- `std::setprecision(12)` (`launcher.cpp:190`). -/
def precision : Nat := 12

/-- The words in front of a time (`launcher.cpp:50`), where `extract_time` splits. -/
def logMark : List Char := "[TEST_PROG_LOG] Time: ".toList

/-- The unit behind a time, where `extract_time` splits. -/
def msMark : List Char := " ms".toList

/-- Nanoseconds as `std::chrono::duration<double, std::milli>`. -/
def ms (nanoseconds : ℚ) : ℚ := nanoseconds / 10 ^ 6

/-- A line of the file, without its end (`launcher.cpp:50`). -/
def resultLine (time : Nat) : List Char := logMark ++ (fixed precision (ms time)).text ++ msMark

/-- The trial and the time of a line that is written to the file. -/
def written? (line : Printed Point Out) : Option (Nat × Nat) :=
  match line.out, line.point.trial? with
  | .file time, some k => some (k, time)
  | _, _ => none

/-- What was written to the stream of the file. -/
def written (s : Procs) : List (Nat × Nat) := s.printed.filterMap written?

/-- The text of the file, if there is one. `parse_args` empties it when it can be opened
(`launcher.cpp:189`), and it takes every line then; otherwise it stays as it was `before`. -/
def outputFile (before : Option (List Char)) (opened : Bool) (s : Procs) : Option (List Char) :=
  if opened then some (unlines '\n' ((written s).map fun result => resultLine result.2)) else before

/-! ## What is read -/

/-- `extract_time` (`plotter.py:4`); `none` is an exception. -/
def extractTime (line : List Char) : Option ℚ := do
  let line := rstrip line
  let line ← (split logMark line)[1]?
  let line ← (split msMark line)[0]?
  numeral line

/-- `output_file_to_data` (`plotter.py:10`), of the text of the file. Without a file, `open` is an
exception. -/
def outputFileToData (file : Option (List Char)) : Option (List ℚ) := do
  let file ← file
  (fileLines file).mapM extractTime

/-! ## What `run_prog` returns -/

/-- What `run_prog` returns in a trial (`test_gzip_harness.cpp:50`). -/
structure RunProg where
  trial : Nat
  testProcPid : Int
  waitPid : Int
  msDouble : ℚ
  deriving DecidableEq

/-- `run_prog` returns when the test program's files could be removed. -/
def runProgReturns? (s : Procs) (e : Event) : Option RunProg :=
  match s.point? launcherPid, e.returns? launcherPid with
  | some (.trial k _ _ (.tidy _ start t w finish)), some 0 => some ⟨k, t, w, ms (finish - start)⟩
  | _, _ => none

/-- What `run_prog` returns in a run, trial after trial. -/
def runProgReturns (testProg : Image) (args : Args) (es : List Event) : List RunProg :=
  observed (Sys.step (main testProg args)) runProgReturns? start es

/-- The returns whose waited pid is the spawned pid. -/
def waited (returns : List RunProg) : List RunProg :=
  returns.filter fun r => r.waitPid = r.testProcPid

/-- The time that is about to be written to the file. -/
def Point.unwritten : Point → List (Nat × Nat)
  | .trial k _ _ (.compare _ start t w finish) => if w = t then [(k, finish - start)] else []
  | _ => []

/-- The time that `run_prog` has returned and that is not in the file yet. There is none when the
launcher is not about to write it, and none when it has exited. -/
def unwritten (s : Procs) : List (Nat × Nat) := ((s.point? launcherPid).map Point.unwritten).getD []

/-! ## One line -/

/-- A time in nanoseconds has no more than twelve decimals in milliseconds. -/
theorem value_time (n : Nat) : (fixed precision (ms n)).value = ms n := by
  refine value_fixed (n := n * 10 ^ 6) ?_
  simp only [ms, precision]
  push_cast
  ring

/-- A character that is in no printed number and in neither mark is in no line. -/
theorem not_mem_resultLine (time : Nat) {c : Char} (hc : Decimal.isChar c = false)
    (hlog : c ∉ logMark) (hms : c ∉ msMark) : c ∉ resultLine time := by
  simp only [resultLine, List.mem_append, not_or]
  exact ⟨⟨hlog, Decimal.not_mem_text _ hc⟩, hms⟩

/-- A mark does not occur where its first character does not. -/
theorem not_infix_of_not_mem {c : Char} {cs a : List Char} (h : c ∉ a) : ¬ c :: cs <:+: a :=
  fun hin => h (hin.subset List.mem_cons_self)

/-- The first character of the first mark is not in the rest of it. -/
theorem logMark_eq : logMark = '[' :: logMark.tail ∧ '[' ∉ logMark.tail := ⟨rfl, by decide⟩

/-- The first character of the second mark is not in the rest of it. -/
theorem msMark_eq : msMark = ' ' :: msMark.tail ∧ ' ' ∉ msMark.tail := ⟨rfl, by decide⟩

/-- A line is cut behind the first mark. -/
theorem split_logMark {rest : List Char} (h : '[' ∉ rest) :
    split logMark (logMark ++ rest) = [[], rest] := by
  obtain ⟨heq, hnot⟩ := logMark_eq
  have hrest : ¬ logMark <:+: rest := heq ▸ not_infix_of_not_mem h
  have hsplit := split_append (a := []) rest hnot (not_infix_of_not_mem (by simp))
  rwa [← heq, List.nil_append, split_eq_singleton hrest] at hsplit

/-- A line is cut in front of the second mark. -/
theorem split_msMark {a : List Char} (h : ' ' ∉ a) : split msMark (a ++ msMark) = [a, []] := by
  obtain ⟨heq, hnot⟩ := msMark_eq
  have hrest : ¬ msMark <:+: [] := heq ▸ not_infix_of_not_mem (by simp)
  have ha : ¬ ' ' :: msMark.tail <:+: a := not_infix_of_not_mem h
  have hsplit := split_append [] hnot ha
  rwa [← heq, List.append_nil, split_eq_singleton hrest] at hsplit

/-- The line is stripped of its end and cut at the two marks. -/
theorem extractTime_resultLine (time : Nat) :
    extractTime (resultLine time ++ ['\n']) = some (ms time) := by
  have hnum : ∀ c, Decimal.isChar c = false → c ∉ (fixed precision (ms time)).text :=
    fun _ hc => Decimal.not_mem_text _ hc
  have hstrip : rstrip (resultLine time ++ ['\n']) = resultLine time := by
    have hend : resultLine time =
        logMark ++ (fixed precision (ms time)).text ++ [' ', 'm'] ++ ['s'] := by
      rw [resultLine, List.append_assoc _ [' ', 'm']]
      rfl
    rw [hend]
    exact rstrip_append ['\n'] (by simp [isSpace]) rfl
  have hlog : split logMark (resultLine time) =
      [[], (fixed precision (ms time)).text ++ msMark] := by
    rw [resultLine, List.append_assoc]
    refine split_logMark (List.mem_append.not.2 (not_or.2 ⟨hnum '[' rfl, ?_⟩))
    simp [msMark]
  have hvalue := (fixed precision (ms time)).numeral_text 0
  rw [value_time] at hvalue
  simpa [extractTime, hstrip, hlog, split_msMark (hnum ' ' rfl)] using hvalue

/-- The file is read back line by line. -/
theorem outputFileToData_outputFile (before : Option (List Char)) (s : Procs) :
    outputFileToData (outputFile before true s) =
      some ((written s).map fun result => ms result.2) := by
  have hlines : ∀ line ∈ (written s).map fun result => resultLine result.2,
      '\n' ∉ line ∧ '\r' ∉ line := by
    intro line hline
    obtain ⟨result, -, rfl⟩ := List.mem_map.1 hline
    exact ⟨not_mem_resultLine _ rfl (by decide) (by decide),
      not_mem_resultLine _ rfl (by decide) (by decide)⟩
  rw [outputFileToData, outputFile, if_pos rfl]
  show (fileLines _).mapM extractTime = _
  rw [fileLines_unlines hlines]
  clear hlines
  induction written s with
  | nil => rfl
  | cons result results ih =>
    rw [List.map_cons, List.map_cons, List.mapM_cons, extractTime_resultLine, ih]
    rfl

/-! ## The run -/

/-- The clock reading `start` is not after `end`, nor after `now` before `end` is read. -/
def TrialPoint.Timely (now : Nat) : TrialPoint → Prop
  | .forkTestProc _ start | .testProcForked _ start _ | .wait _ start _ | .waited _ start _ _
  | .interuptForkTestProc start | .interuptTestProcForked start _ | .interuptForkHackbench start _
  | .interuptHackbenchForked start _ _ => start ≤ now
  | .tidy _ start _ _ finish | .compare _ start _ _ finish => start ≤ finish
  | _ => True

/-- The clock readings at a control point are in order. -/
def Point.Timely (now : Nat) : Point → Prop
  | .trial _ _ _ p => p.Timely now
  | _ => True

/-- A result in milliseconds. -/
def inMs (result : Nat × Nat) : Nat × ℚ := (result.1, ms result.2)

/-- The trial and the duration of a return. -/
def RunProg.result (r : RunProg) : Nat × ℚ := (r.trial, r.msDouble)

/-- After the returns `rs`, the file has their durations, but for the one that is about to be
written. -/
structure Recorded (rs : List RunProg) (s : Procs) : Prop where
  always : Always s
  unsignalled : Unsignalled s
  timely : ∀ l, LauncherAt s l → l.Timely s.clock
  sorted : ((written s).map Prod.fst).Pairwise (· < ·)
  results : (written s ++ unwritten s).map inMs = (waited rs).map RunProg.result

section
variable {testProg : Image} {args : Args} {s s' : Procs} {e : Event} {rs : List RunProg}

theorem Point.Timely.mono {m n : Nat} {l : Point} (hle : m ≤ n) (h : l.Timely m) : l.Timely n := by
  cases l with
  | begin | pairs | reps | done => trivial
  | trial k np r p =>
    cases p with
    | forkTestProc | testProcForked | wait | waited | interuptForkTestProc
    | interuptTestProcForked | interuptForkHackbench | interuptHackbenchForked =>
      exact Nat.le_trans h hle
    | tidy | compare => exact h
    | _ => trivial

theorem Point.Timely.flow {n : Nat} {l l' : Point} (hf : Flow n l l') (h : l.Timely n) :
    l'.Timely n := by
  cases hf with
  | begin | reps | done | pairs | rep => trivial
  | trial _ _ _ hf => rcases hf with rfl | rfl <;> trivial
  | run k np r hp =>
    cases hp with
    | start | interuptStart => exact le_refl n
    | testProc | interuptTestProc | interuptHackbench | finish | tidy => exact h
    | testChild _ hp' => rcases hp' with rfl | rfl <;> trivial
    | _ => trivial

theorem ForksAt.timely {n m : Nat} {role : Role} {l : Point} {f : Int → Point} {ret : Int}
    (hf : ForksAt l m role f) (h : l.Timely n) : (f ret).Timely n := by
  cases hf with
  | hackbench => trivial
  | testProg | interuptTestProg | interuptHackbench => exact h

theorem WaitsAt.timely {n : Nat} {l : Point} {f : Int → Point} {ret : Int} (hw : WaitsAt l f)
    (h : l.Timely n) : (f ret).Timely n := by
  cases hw with
  | first => exact h
  | second => trivial

/-- Every step keeps the readings in order. -/
theorem timely_step {c : Program} (hi : Inv s) (ht : ∀ l, LauncherAt s l → l.Timely s.clock)
    (hs : s.step (c.main args) e = some s') : ∀ l, LauncherAt s' l → l.Timely s'.clock := by
  intro l' hl'
  refine Point.Timely.mono (step_clock hs).le ?_
  cases move_of_step hs hi.present hl' with
  | other _ hl _ => exact ht l' hl
  | goes _ hl hf _ => exact (ht _ hl).flow hf
  | forkFailed _ hl hf hl' _ | forked _ hl hf hl' _ _ _ _ => exact hl' ▸ hf.timely (ht _ hl)
  | noChild _ hl hw hl' _ _ | reaped _ hl hw hl' _ _ _ _ => exact hl' ▸ hw.timely (ht _ hl)

/-- A step writes nothing to the file, or it is the launcher's and writes what was not written. -/
theorem step_written {c : Program} (hch : InChildren s) (hs : s.step (c.main args) e = some s') :
    written s' = written s ∨
    ∃ k np r h start t finish, LauncherAt s (.trial k np r (.compare h start t t finish)) ∧
      LauncherAt s' (.trial k np r (.coutTime h (finish - start))) ∧
      written s' = written s ++ [(k, finish - start)] := by
  rcases step_file hch hs with ⟨new, hpr, hnew⟩ | ⟨k, np, r, h, start, t, finish, hl, hl', hpr⟩
  · left
    have hnil : new.filterMap written? = [] := by
      refine List.filterMap_eq_nil_iff.2 fun line hline => ?_
      have := hnew line hline
      unfold written?
      split
      · next time k hout _ => exact absurd hout (this time)
      · rfl
    rw [written, hpr, List.filterMap_append, hnil, List.append_nil, written]
  · right
    refine ⟨k, np, r, h, start, t, finish, hl, hl', ?_⟩
    rw [written, hpr, List.filterMap_append]
    rfl

/-- The trials of the file's lines. -/
theorem recorded_eq (s : Procs) : recorded s = (written s).map Prod.fst := by
  rw [recorded, written, List.map_filterMap]
  refine List.filterMap_congr fun line _ => ?_
  unfold fileTrial? written?
  cases line.out <;> cases line.point.trial? <;> rfl

/-- Every step leaves the file's trials in their order. -/
theorem sorted_step {c : Program} (ha : Always s)
    (h : ((written s).map Prod.fst).Pairwise (· < ·)) (hs : s.step (c.main args) e = some s') :
    ((written s').map Prod.fst).Pairwise (· < ·) := by
  rcases step_written ha.inChildren hs with hw | ⟨k, np, r, _, _, _, _, hl, -, hw⟩
  · rwa [hw]
  · rw [hw, List.map_append, List.pairwise_append]
    refine ⟨h, List.pairwise_singleton _ _, fun j hj m hm => ?_⟩
    rw [List.mem_singleton.1 hm]
    exact ha.recordedOnce.past _ hl k rfl j (recorded_eq s ▸ hj)

/-! ## What a step writes of what `run_prog` returned -/

/-- What is in the file, and what `run_prog` has returned for it, in milliseconds. -/
def results (s : Procs) : List (Nat × ℚ) := (written s ++ unwritten s).map inMs

theorem unwritten_eq {l : Point} (hl : LauncherAt s l) : unwritten s = l.unwritten := by
  rw [unwritten, point?_eq_some.2 hl]
  rfl

theorem unwritten_eq_nil (hl : ∀ l, LauncherAt s l → l.unwritten = []) : unwritten s = [] := by
  unfold unwritten
  cases h : s.point? launcherPid with
  | none => rfl
  | some l => exact hl l (point?_eq_some.1 h)

/-- `run_prog` returns at a step of the launcher only, from where it tidies up. -/
theorem runProgReturns?_eq_none
    (h : e.returns? launcherPid = none ∨ ∀ k np r h start t w finish,
      ¬ LauncherAt s (.trial k np r (.tidy h start t w finish))) : runProgReturns? s e = none := by
  unfold runProgReturns?
  split
  · next k np r h' start t w finish hp hret =>
    rcases h with h | h
    · cases h.symm.trans hret
    · exact absurd (point?_eq_some.1 hp) (h k np r h' start t w finish)
  · rfl

/-- An event of another process writes nothing, and `run_prog` does not return. -/
theorem results_of_ne {c : Program} (ha : Always s) (hs : s.step (c.main args) e = some s')
    (he : e.pid ≠ launcherPid) : results s' = results s ∧ runProgReturns? s e = none := by
  obtain ⟨P, hP⟩ := Option.isSome_iff_exists.1 ha.inv.present
  have hpoint : s'.point? launcherPid = s.point? launcherPid := step_point?_of_ne hs he hP
  have hret : e.returns? launcherPid = none := by
    cases e with
    | call p ret => exact if_neg he
    | exit | term | pass => rfl
  refine ⟨?_, runProgReturns?_eq_none (.inl hret)⟩
  rcases step_written ha.inChildren hs with hw | ⟨k, np, r, h, start, t, finish, hl, hl', -⟩
  · rw [results, hw, unwritten, hpoint]
    rfl
  · have hl'' : s'.point? launcherPid = _ := hpoint.trans (point?_eq_some.2 hl)
    cases LauncherAt.unique (point?_eq_some.1 hl'') hl'

/-- A result is left to be written only when `run_prog` has returned. -/
theorem unwritten_flow {n : Nat} {l l' : Point} (hf : Flow n l l')
    (htidy : ∀ k np r h start t w finish, l ≠ .trial k np r (.tidy h start t w finish)) :
    l'.unwritten = [] := by
  cases hf with
  | begin | reps | done | pairs | rep => rfl
  | trial _ _ _ hf => rcases hf with rfl | rfl <;> rfl
  | run k np r hp =>
    cases hp with
    | tidy => exact absurd rfl (htidy _ _ _ _ _ _ _ _)
    | testChild _ hp' => rcases hp' with rfl | rfl <;> rfl
    | _ => rfl

/-- A step of the launcher from where nothing is left to write, and where `run_prog` does not
return. -/
theorem results_of_other {c : Program} {l : Point} {ret : Int} (ha : Always s) (hl : LauncherAt s l)
    (hun : l.unwritten = [])
    (htidy : ∀ k np r h start t w finish, l ≠ .trial k np r (.tidy h start t w finish))
    (hs : s.step (c.main args) (.call launcherPid ret) = some s') :
    results s' = results s ∧ runProgReturns? s (.call launcherPid ret) = none := by
  have hun' : ∀ l', LauncherAt s' l' → l'.unwritten = [] := by
    intro l' hl'
    cases move_of_step hs ha.inv.present hl' with
    | other he => exact absurd rfl (he ret)
    | goes _ hl₀ hf _ => exact unwritten_flow hf (hl₀.unique hl ▸ htidy)
    | forkFailed _ _ hf hl' _ | forked _ _ hf hl' _ _ _ _ =>
      subst hl'
      cases hf <;> rfl
    | noChild _ _ hw hl' _ _ | reaped _ _ hw hl' _ _ _ _ =>
      subst hl'
      cases hw <;> rfl
  have hwritten : written s' = written s := by
    rcases step_written ha.inChildren hs with hw | ⟨k, np, r, h, start, t, finish, hl', -⟩
    · exact hw
    · obtain rfl := hl'.unique hl
      simp [Point.unwritten] at hun
  refine ⟨?_, runProgReturns?_eq_none (.inr fun k np r h start t w finish hl' => ?_)⟩
  · rw [results, results, hwritten, unwritten_eq hl, hun, unwritten_eq_nil hun']
  · exact htidy _ _ _ _ _ _ _ _ (hl.unique hl')

/-- When the test program's files are removed, `run_prog` returns, and what it returned is left to
be written if the pids agree. When that fails, the launcher aborts. -/
theorem results_of_tidy {k start finish : Nat} {np r h t w ret : Int} (ha : Always s)
    (hl : LauncherAt s (.trial k np r (.tidy h start t w finish))) (hle : start ≤ finish)
    (hs : s.step (main testProg args) (.call launcherPid ret) = some s') :
    results s' = results s ++
      (waited (runProgReturns? s (.call launcherPid ret)).toList).map RunProg.result := by
  have hwritten : written s' = written s := by
    rcases step_written (c := .launcher testProg) ha.inChildren hs with
      hw | ⟨_, _, _, _, _, _, _, hl₀, -⟩
    · exact hw
    · cases hl₀.unique hl
  have hun : unwritten s = [] := unwritten_eq hl
  have hreturns : runProgReturns? s (.call launcherPid ret) =
      if ret = 0 then some ⟨k, t, w, ms (finish - start)⟩ else none := by
    rw [runProgReturns?, point?_eq_some.2 hl]
    by_cases hret : ret = 0
    · subst hret
      rfl
    · rw [if_neg hret]
      split
      · next heq => exact absurd (Option.some.inj heq) hret
      · rfl
  obtain ⟨P, hP, hlife⟩ := hl
  obtain ⟨P₁, l₁, s₁, hP₁, hlife₁, hcall, hs'⟩ := step_call hs
  cases hP.symm.trans hP₁
  cases hlife.symm.trans hlife₁
  rcases call_throws hcall with ⟨rfl, rfl⟩ | ⟨hret, rfl⟩
  · have hun' : unwritten s' = Point.unwritten (.trial k np r (.compare h start t w finish)) :=
      unwritten_eq ⟨_, by rw [hs', procs_tick]; exact lookup_live_self, rfl⟩
    rw [results, results, hwritten, hun, hun', hreturns, List.append_nil, List.map_append]
    congr 1
    by_cases hw : w = t
    · simp [Point.unwritten, hw, waited, inMs, RunProg.result, Nat.cast_sub hle]
    · simp [Point.unwritten, hw, waited]
  · have hun' : unwritten s' = [] := by
      refine unwritten_eq_nil ?_
      rintro l ⟨Q, hQ, hl⟩
      rw [hs', procs_tick, lookup_live_self] at hQ
      cases hQ
      cases hl
    rw [results, results, hwritten, hun, hun', hreturns, if_neg hret]
    exact (List.append_nil _).symm

/-- What is left to be written is written. -/
theorem results_of_compare {k start finish : Nat} {np r h t w ret : Int}
    (hfile : args.fileValid = true)
    (hl : LauncherAt s (.trial k np r (.compare h start t w finish)))
    (hs : s.step (main testProg args) (.call launcherPid ret) = some s') :
    results s' = results s ∧ runProgReturns? s (.call launcherPid ret) = none := by
  refine ⟨?_, runProgReturns?_eq_none (.inr fun _ _ _ _ _ _ _ _ hl' => nomatch hl.unique hl')⟩
  rw [results, results, unwritten_eq hl]
  obtain ⟨P, hP, hP'⟩ := hl
  by_cases hw : w = t
  · subst hw
    have hcode : main testProg args (.trial k np r (.compare h start w w finish)) =
        .print (.file (finish - start)) (.trial k np r (.coutTime h (finish - start))) :=
      (main_compare (.launcher testProg) args k start finish np r h w).trans (if_pos hfile)
    obtain ⟨s'', hs'', hprocs, hprinted⟩ := step_of_print ret hP hP' hcode
    cases hs.symm.trans hs''
    rw [unwritten_eq ⟨_, by rw [hprocs]; exact lookup_live_self, rfl⟩, written, hprinted,
      List.filterMap_append]
    simp [Point.unwritten, written, written?, Point.trial?]
  · have hcode : main testProg args (.trial k np r (.compare h start t w finish)) =
        .print (.waitError t w h) (.trial k np r .returned) :=
      main_compare_of_ne (.launcher testProg) args hw
    obtain ⟨s'', hs'', hprocs, hprinted⟩ := step_of_print ret hP hP' hcode
    cases hs.symm.trans hs''
    rw [unwritten_eq ⟨_, by rw [hprocs]; exact lookup_live_self, rfl⟩, written, hprinted,
      List.filterMap_append]
    simp [Point.unwritten, written, written?, hw]

/-- The launcher is not terminated: when it ends, it has exited. -/
theorem results_of_end {c : Program} (ha : Always s) (hu : Unsignalled s)
    (he : ∀ ret, e ≠ .call launcherPid ret) (hs : s.step (c.main args) e = some s') :
    results s' = results s ∧ runProgReturns? s e = none := by
  by_cases hne : e.pid = launcherPid
  swap
  · exact results_of_ne ha hs hne
  cases e with
  | call p ret => exact absurd (congrArg (Event.call · ret) hne) (he ret)
  | exit p st =>
    obtain rfl : p = launcherPid := hne
    simp only [step] at hs
    split at hs
    · next pp o f img hP =>
      cases hs
      have hl : ∀ l, ¬ LauncherAt s l := by
        rintro l ⟨P, hP', hl⟩
        cases hP.symm.trans hP'
        cases hl
      refine ⟨?_, runProgReturns?_eq_none (.inl rfl)⟩
      rw [results, unwritten_eq_nil, results, unwritten_eq_nil fun l h => (hl l h).elim]
      · rfl
      · rintro l ⟨P, hP', hl⟩
        rw [procs_tick, lookup_put_self] at hP'
        cases hP'
        cases hl
    · cases hs
  | term p =>
    obtain rfl : p = launcherPid := hne
    simp only [step] at hs
    split at hs
    · split at hs
      · next hpend =>
        obtain ⟨k, hk, hhits, -⟩ := hpend.2
        exact absurd hhits (hu.kills k hk)
      · cases hs
    · cases hs
  | pass time => cases hne

/-- Every step keeps the file in line with what `run_prog` returned. -/
theorem recorded_step (hfile : args.fileValid = true) (h : Recorded rs s)
    (hs : s.step (main testProg args) e = some s') :
    Recorded (rs ++ (runProgReturns? s e).toList) s' := by
  have hs' : s.step ((Program.launcher testProg).main args) e = some s' := hs
  refine ⟨always_step h.always hs',
    unsignalled_step h.always.inv h.always.inChildren h.unsignalled hs',
    timely_step h.always.inv h.timely hs', sorted_step h.always h.sorted hs', ?_⟩
  have same : results s' = results s ∧ runProgReturns? s e = none →
      results s' = (waited (rs ++ (runProgReturns? s e).toList)).map RunProg.result := by
    rintro ⟨hres, hret⟩
    rw [hres, hret, Option.toList_none, List.append_nil]
    exact h.results
  by_cases he : ∃ ret, e = .call launcherPid ret
  · obtain ⟨ret, rfl⟩ := he
    obtain ⟨P, l, s₁, hP, hl, -, -⟩ := step_call hs
    have hl : LauncherAt s l := ⟨P, hP, hl⟩
    have other : l.unwritten = [] →
        (∀ k np r h start t w finish, l ≠ .trial k np r (.tidy h start t w finish)) →
        results s' = (waited (rs ++ (runProgReturns? s (.call launcherPid ret)).toList)).map
          RunProg.result := fun hun htidy => same (results_of_other h.always hl hun htidy hs')
    cases l with
    | begin | pairs | reps | done => exact other rfl fun _ _ _ _ _ _ _ _ heq => by cases heq
    | trial k np r p =>
      cases p with
      | tidy hb start t w finish =>
        have hres := results_of_tidy h.always hl (h.timely _ hl) hs
        have hold : results s = (waited rs).map RunProg.result := h.results
        show results s' = _
        rw [hres, hold, ← List.map_append, waited, waited, waited, ← List.filter_append]
      | compare hb start t w finish => exact same (results_of_compare hfile hl hs)
      | _ => exact other rfl fun _ _ _ _ _ _ _ _ heq => by cases heq
  · exact same (results_of_end h.always h.unsignalled (fun ret heq => he ⟨ret, heq⟩) hs')

theorem recorded_start : Recorded [] start := by
  refine ⟨always_start, unsignalled_start, ?_, List.Pairwise.nil, rfl⟩
  rintro l ⟨P, hP, hl⟩
  cases hP
  cases hl
  trivial

/-- What is in the file and what is about to be written are of different trials, in order. -/
theorem Recorded.trials (h : Recorded rs s) :
    ((waited rs).map RunProg.trial).Pairwise (· < ·) := by
  have htrials : (waited rs).map RunProg.trial = (written s ++ unwritten s).map Prod.fst := by
    have := congrArg (List.map Prod.fst) h.results
    simpa [List.map_map, Function.comp_def, inMs, RunProg.result] using this.symm
  rw [htrials, List.map_append, List.pairwise_append]
  have hpast : ∀ l, LauncherAt s l → (l.unwritten.map Prod.fst).Pairwise (· < ·) ∧
      ∀ i ∈ recorded s, ∀ j ∈ l.unwritten.map Prod.fst, i < j := by
    intro l hl
    cases l with
    | begin | pairs | reps | done =>
      exact ⟨List.Pairwise.nil, fun _ _ _ hj => absurd hj List.not_mem_nil⟩
    | trial k np r p =>
      cases p with
      | compare hb start t w finish =>
        rw [Point.unwritten]
        split
        · refine ⟨List.pairwise_singleton _ _, fun i hi j hj => ?_⟩
          rw [List.mem_singleton.1 hj]
          exact h.always.recordedOnce.past _ hl k rfl i hi
        · exact ⟨List.Pairwise.nil, fun _ _ _ hj => absurd hj List.not_mem_nil⟩
      | _ => exact ⟨List.Pairwise.nil, fun _ _ _ hj => absurd hj List.not_mem_nil⟩
  cases hp : s.point? launcherPid with
  | none =>
    rw [unwritten, hp]
    exact ⟨h.sorted, List.Pairwise.nil, fun _ _ _ hj => absurd hj List.not_mem_nil⟩
  | some l =>
    have hl : LauncherAt s l := point?_eq_some.1 hp
    rw [unwritten_eq hl]
    exact ⟨h.sorted, (hpast l hl).1, recorded_eq s ▸ (hpast l hl).2⟩

/-- What is read from the file are the durations but for the one that is about to be written. -/
theorem Recorded.read (h : Recorded rs s) (before : Option (List Char)) :
    ∃ data, outputFileToData (outputFile before true s) = some data ∧
      data ++ (unwritten s).map (fun result => ms result.2) = (waited rs).map RunProg.msDouble := by
  refine ⟨_, outputFileToData_outputFile before s, ?_⟩
  have := congrArg (List.map Prod.snd) h.results
  simpa [List.map_map, Function.comp_def, inMs, RunProg.result] using this

end

/-- In every run of `launcher.cpp` with `-f` whose file could be opened, `output_file_to_data` reads
the durations that `run_prog` returned in the trials where the waited pid was the spawned one, in
the order of the trials; while the launcher has not ended, the last of them may be still to be
written. -/
theorem results_read_back (testProg : Image) (args : Args) (before : Option (List Char))
    (hfile : args.fileValid = true) (es : List Event) (s : Procs)
    (h : exec (Sys.step (main testProg args)) Free start es = some s) :
    (s.point? launcherPid = none → outputFileToData (outputFile before true s) =
      some ((waited (runProgReturns testProg args es)).map RunProg.msDouble)) ∧
    (∃ data, outputFileToData (outputFile before true s) = some data ∧
      data ++ (unwritten s).map (fun result => ms result.2) =
        (waited (runProgReturns testProg args es)).map RunProg.msDouble) ∧
    ((waited (runProgReturns testProg args es)).map RunProg.trial).Pairwise (· < ·) := by
  have hrec : Recorded (runProgReturns testProg args es) s :=
    observed_invariant runProgReturns? (I := fun s rs => Recorded rs s) (recorded_start)
      (fun _ _ _ _ h _ hs => recorded_step hfile h hs) es h
  refine ⟨fun hend => ?_, hrec.read before, hrec.trials⟩
  obtain ⟨data, hdata, heq⟩ := hrec.read before
  rw [unwritten, hend] at heq
  rw [hdata, ← heq]
  simp

/-- Two trials: in the first hackbench exits before the test program, and the second, of 8.3 ms, is
recorded. -/
def failedThenRecorded : List Event :=
  [.call 1 0, .call 1 0, .call 1 0, .call 1 2, .call 1 0, .call 2 0, .pass 10000000000, .call 1 0,
    .call 1 0, .call 1 0, .call 1 3, .call 1 0, .call 3 0, .call 3 0, .exit 2 (.exited 1),
    .call 1 2, .call 1 0, .call 1 0, .call 1 0, .call 1 0,
    .call 1 0, .call 1 4, .call 1 0, .call 4 0, .pass 10000000000, .call 1 0, .call 1 0, .call 1 0,
    .call 1 5, .call 1 0, .call 5 0, .call 5 0, .pass 8300000, .exit 5 (.exited 0), .call 1 5,
    .call 1 0, .call 1 0, .call 1 0, .call 1 0, .call 1 0, .term 4, .call 1 4, .call 1 0, .call 1 0,
    .call 1 0, .call 1 0, .call 1 0]

/-- The file of this run has the one duration, of the second trial. -/
theorem results_read_back_failedThenRecorded : ∃ s,
    exec (Sys.step (main gzipProg { fileValid := true, reps := 2 })) Free start
      failedThenRecorded = some s ∧
    runProgReturns gzipProg { fileValid := true, reps := 2 } failedThenRecorded =
      [⟨0, 3, 2, ms 7⟩, ⟨1, 5, 5, ms 8300007⟩] ∧
    outputFileToData (outputFile none true s) = some [ms 8300007] := by
  have hreturns : runProgReturns gzipProg { fileValid := true, reps := 2 } failedThenRecorded =
      [⟨0, 3, 2, ms 7⟩, ⟨1, 5, 5, ms 8300007⟩] := by decide +kernel
  refine ⟨_, rfl, hreturns, ?_⟩
  rw [(results_read_back gzipProg { fileValid := true, reps := 2 } none rfl failedThenRecorded _
    rfl).1 rfl, hreturns]
  rfl

/-- When the file could not be opened, the duration that `run_prog` returned is not read. -/
theorem results_lost : ¬ ∀ (testProg : Image) (args : Args) (before : Option (List Char))
    (opened : Bool), args.fileValid = true → ∀ es s,
    exec (Sys.step (main testProg args)) Free start es = some s → s.point? launcherPid = none →
    outputFileToData (outputFile before opened s) =
      some ((waited (runProgReturns testProg args es)).map RunProg.msDouble) := fun h =>
  nomatch h gzipProg { fileValid := true, reps := 2 } none false rfl failedThenRecorded _ rfl rfl

end Launcher
