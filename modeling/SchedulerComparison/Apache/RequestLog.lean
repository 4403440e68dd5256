import SchedulerComparison.Apache.Pairs
import SchedulerComparison.Apache.Window
import SchedulerComparison.Lib.CxxString

/-!
# From the requests to the plot

Each run of the client appends a line to `request.log`, if it comes to its end. `read_scheduler` of
`handle_ping.py` and `parse_file` of `plot.py` read the file. `requests_read_back` follows the times
through it: for any clients, one after the other, of which any were killed or had calls that failed,
what is read are the times from the start time of the parent to the end time of the child in the
clients that came to their end. `plotted_from_logs` goes on to what `handle_ping.py` plots.

The program `ping` is not part of the repository: a line of its output is taken to be any text
around ` time=` and a decimal number (`PingLine`). Arithmetic is exact: a float is a rational
number, and so is a product of two.
-/

open CxxString Text Transition

/-! ## What is written -/

namespace HttpClient

/-- The words in front of a time (`http_client.cpp:333`), where the readers split. -/
def totalMark : List Char := "Total nanosec: ".toList

/-- A line of the log, without its end. -/
def totalLine (total : Int) : List Char := totalMark ++ (Integer.ofInt total).text

/-- A client and where its run has come to. -/
structure Client where
  numRequests : Int
  state : State
  reach : Reach (step numRequests) Free start state

/-- What the client does to the log, which it opens with `std::ios::app`
(`http_client.cpp:331-333`). -/
def Client.append (file : List Char) (c : Client) : List Char :=
  match c.state.logged with
  | some total => file ++ totalLine total ++ ['\n']
  | none => file

/-- The log after clients that ran one after the other, as `pi_launcher.py` and
`server_launcher.py` run them. -/
def requestLog (clients : List Client) : List Char := clients.foldl Client.append []

/-- The client has written to the log. -/
def Client.hasLogged (c : Client) : Bool := c.state.logged.isSome

/-- `total` is the time that the client measured: from the start time of the parent to the end time
of the child, which has gone through all of `child_task`. -/
def Client.Measured (c : Client) (total : Int) : Prop :=
  c.state.child = .finished ∧ c.state.IsTotal total

/-- The server of this run closed its side only after the sending side was shut down. -/
def Client.ServedLate (c : Client) : Prop := Reach (step c.numRequests) LateClose start c.state

end HttpClient

/-! ## What is read -/

namespace HandlePing

/-- A line of `read_scheduler` (`handle_ping.py:15`); `none` is an exception. -/
def readTotal (line : List Char) : Option ℚ := do
  numeral (← (split HttpClient.totalMark (rstrip line))[1]?)

/-- `read_scheduler` (`handle_ping.py:13`), of the text of the file. -/
def readScheduler (file : List Char) : Option (List ℚ) := (fileLines file).mapM readTotal

/-- The words in front of a ping time. -/
def timeMark : List Char := "time=".toList

/-- The unit behind a ping time. -/
def msMark : List Char := " ms".toList

/-- A line of `read_ping` (`handle_ping.py:20`), in nanoseconds. The product is exact: that of two
floats is rounded, and of `8.3` it is `8300000.000000001`. -/
def readPingTime (line : List Char) : Option ℚ := do
  let rest ← (split timeMark (rstrip line))[1]?
  let time ← (split msMark rest)[0]?
  return (← numeral time) * 1000000

/-- `read_ping` (`handle_ping.py:18`), of the text of the file. -/
def readPing (file : List Char) : Option (List ℚ) := (fileLines file).mapM readPingTime

/-- What is plotted for a scheduler (`handle_ping.py:63-77`). -/
def plotted (fftconvolve : List ℚ → List ℚ → List ℚ) (httpFile pingFile : List Char) :
    Option (List ℤ × List ℚ) := do
  let httpTimes ← readScheduler httpFile
  let pingTimes ← readPing pingFile
  convolute fftconvolve httpTimes pingTimes 100000 (by decide)

/-- A line that `ping` prints for a reply: a text in which no time is given and no line ends, and
the time. -/
structure PingLine where
  head : List Char
  time : Decimal
  time_not_infix : ¬ timeMark <:+: head
  isLine : '\n' ∉ head ∧ '\r' ∉ head
  time_nonneg : time.neg = false

/-- The line as it is printed. -/
def PingLine.text (l : PingLine) : List Char := l.head ++ (timeMark ++ (l.time.text ++ msMark))

/-- The output of `ping`. -/
def pingFile (lines : List PingLine) : List Char := unlines '\n' (lines.map PingLine.text)

/-- The time of a line in nanoseconds. -/
def PingLine.nanosec (l : PingLine) : ℚ := l.time.value * 1000000

end HandlePing

namespace Plot

end Plot

/-! ## What the client logs -/

namespace HttpClient

section
variable {n : Int} {s s' : State} {e : Event}

/-- What has been logged is the time that was measured. -/
def State.LogsTotal (s : State) : Prop :=
  ∀ total, s.logged = some total → s.parent = .returned ∧ s.child = .finished ∧ s.IsTotal total

/-- The next call of the parent keeps what is logged right. -/
theorem parent_logsTotal (hinv : Inv s) (h : s.LogsTotal) (hm : ParentMoves n s s') :
    s'.LogsTotal := by
  intro total hlog
  cases hm with
  | gone rest => exact h total hlog
  | @logged ticks _ hp hticks htotal =>
    obtain ⟨hfinished, hdone⟩ := hinv.atParent hp
    cases hlog
    exact ⟨rfl, hfinished, ticks, s.endTime, hticks, hdone, eq_of_totalNanosec htotal⟩
  | slept hp | forkFailed hp | forked hp | pinned hp | scheduled hp | closedRead hp
  | closedWrite hp | wroteStart hp | ready hp | started hp | sends hp | sentAll hp | wrote hp
  | wroteLast hp | shut hp | ended hp | waited hp | notLogged hp =>
    -- the parent is behind the line that logs
    exact ParentPoint.noConfusion (hp.symm.trans (h total hlog).1)

/-- The next call of the child keeps what is logged right. -/
theorem child_logsTotal (h : s.LogsTotal) (hm : ChildMoves s s') : s'.LogsTotal := by
  intro total hlog
  cases hm with
  | gone rest => exact h total hlog
  | pinned hp | scheduled hp | closedWrite hp | closedRead hp | started hp | wroteReady hp
  | received hp | sawEof hp | tookRecvDone hp | wroteEnd hp =>
    exact ChildPoint.noConfusion (hp.symm.trans (h total hlog).2.1)

/-- Every step keeps what is logged right. -/
theorem logsTotal_step (hinv : Inv s) (h : s.LogsTotal) (hs : step n s e = some s') :
    s'.LogsTotal := by
  cases moves_of_step hs with
  | parent _ hm => exact parent_logsTotal hinv h hm
  | child _ hm => exact child_logsTotal h hm
  | killParent | killChild | serverReads | serverSends | serverCloses | tick => exact h

/-- In every run, what has been logged is the time that was measured. -/
theorem reach_logsTotal {C : State → Event → Prop} (h : Reach (step n) C start s) :
    s.LogsTotal := by
  have hstart : start.LogsTotal := fun total hlog => by cases hlog
  have hboth := h.invariant (I := fun s => Inv s ∧ s.LogsTotal) ⟨inv_start, hstart⟩
    fun _ _ _ hi _ hs => ⟨inv_step hi.1 hs, logsTotal_step hi.1 hi.2 hs⟩
  exact hboth.2

end

/-- When the server closes its side late, the time that is logged is not negative. -/
theorem nonneg_of_late {n : Int} {s : State} {total : Int} (h : Reach (step n) LateClose start s)
    (hlog : s.logged = some total) : 0 ≤ total := by
  obtain ⟨-, htimed⟩ := reach_timed h
  obtain ⟨-, ticks, recvDone, hticks, hdone, rfl⟩ := htimed.logged total hlog
  obtain ⟨-, ticks', hticks', hle⟩ := htimed.times recvDone hdone
  cases hticks.symm.trans hticks'
  omega

/-- What the clients have logged, in order. -/
def totals (clients : List Client) : List Int := clients.filterMap (·.state.logged)

section
variable {clients : List Client}

/-- The log is the lines of the clients that have logged. -/
theorem requestLog_eq (clients : List Client) :
    requestLog clients = unlines '\n' ((totals clients).map totalLine) := by
  induction clients using List.reverseRecOn with
  | nil => rfl
  | append_singleton clients c ih =>
    rw [requestLog] at ih ⊢
    rw [List.foldl_concat, ih, totals, totals, List.filterMap_append, List.map_append,
      unlines_append, Client.append]
    cases hlog : c.state.logged <;> simp [hlog]

/-- The clients that have logged measured what they logged. -/
theorem forall₂_totals (clients : List Client) :
    List.Forall₂ Client.Measured (clients.filter Client.hasLogged) (totals clients) := by
  induction clients with
  | nil => exact .nil
  | cons c clients ih =>
    cases hlog : c.state.logged with
    | none => simpa [totals, Client.hasLogged, hlog] using ih
    | some total =>
      have hmeasured : c.Measured total := (reach_logsTotal c.reach total hlog).2
      simpa [totals, Client.hasLogged, hlog] using ⟨hmeasured, ih⟩

/-- A written time contains no character that is neither a digit nor a sign. -/
theorem not_mem_integer (i : Int) {c : Char} (hc : Decimal.isChar c = false) :
    c ∉ (Integer.ofInt i).text := by
  rw [← Integer.text_decimal]
  exact Decimal.not_mem_text _ hc

/-- A line has no end in it. -/
theorem totalLine_isLine (total : Int) : '\n' ∉ totalLine total ∧ '\r' ∉ totalLine total := by
  refine ⟨?_, ?_⟩ <;> rw [totalLine, List.mem_append, not_or]
  · exact ⟨by decide, not_mem_integer total rfl⟩
  · exact ⟨by decide, not_mem_integer total rfl⟩

/-- What stands behind the words is read. -/
theorem split_totalLine (total : Int) :
    split totalMark (rstrip (totalLine total ++ ['\n'])) = [[], (Integer.ofInt total).text] := by
  have hstrip : rstrip (totalLine total ++ ['\n']) = totalLine total := by
    refine rstrip_append_word ['\n'] (by simp [isSpace]) ?_ fun c hc => ?_
    · simp [Integer.text, (Integer.ofInt total).digits_ne_nil]
    · rw [← Integer.text_decimal] at hc
      exact Decimal.isSpace_of_mem_text hc
  rw [hstrip]
  exact split_pair (a := []) (by decide) (by simp) (not_mem_integer total rfl)

end

end HttpClient

/-! ## What is read back -/

namespace HandlePing

section
variable {clients : List HttpClient.Client} {lines : List PingLine}

/-- `read_scheduler` reads what the clients have logged. -/
theorem readScheduler_requestLog (clients : List HttpClient.Client) :
    readScheduler (HttpClient.requestLog clients) =
      some ((HttpClient.totals clients).map fun total : Int => (total : ℚ)) := by
  rw [HttpClient.requestLog_eq]
  refine mapM_fileLines (fun total _ => HttpClient.totalLine_isLine total) fun total _ => ?_
  rw [readTotal, HttpClient.split_totalLine]
  exact Integer.numeral_text total

/-- A line of `ping` has no end in it. -/
theorem PingLine.text_isLine (l : PingLine) : '\n' ∉ l.text ∧ '\r' ∉ l.text := by
  have hmem {c : Char} (hhead : c ∉ l.head) (hmarks : c ∉ timeMark ∧ c ∉ msMark)
      (hc : Decimal.isChar c = false) : c ∉ l.text := by
    simp only [PingLine.text, List.mem_append, not_or]
    exact ⟨hhead, hmarks.1, l.time.not_mem_text hc, hmarks.2⟩
  exact ⟨hmem l.isLine.1 (by decide) rfl, hmem l.isLine.2 (by decide) rfl⟩

/-- The time of a line is read. -/
theorem readPingTime_text (l : PingLine) :
    readPingTime (l.text ++ ['\n']) = some l.nanosec := by
  have hstrip : rstrip (l.text ++ ['\n']) = l.text := by
    have hend : l.text = l.head ++ timeMark ++ l.time.text ++ [' ', 'm'] ++ ['s'] := by
      simp [PingLine.text, msMark]
    rw [hend]
    exact rstrip_append ['\n'] (by simp [isSpace]) rfl
  have htime : split timeMark l.text = [l.head, l.time.text ++ msMark] := by
    refine split_pair (by decide) l.time_not_infix (List.mem_append.not.2 (not_or.2 ⟨?_, ?_⟩))
    · exact l.time.not_mem_text rfl
    · decide
  have hms : split msMark (l.time.text ++ msMark) = [l.time.text, []] := by
    have h := split_pair (b := []) (show ' ' ∉ "ms".toList by decide)
      (fun hin => l.time.not_mem_text rfl (hin.subset List.mem_cons_self)) List.not_mem_nil
    rwa [List.append_nil] at h
  have hvalue : numeral l.time.text = some l.time.value := l.time.numeral_text 0
  simp [readPingTime, hstrip, htime, hms, hvalue, PingLine.nanosec]

/-- `read_ping` reads the times of the lines. -/
theorem readPing_pingFile (lines : List PingLine) :
    readPing (pingFile lines) = some (lines.map PingLine.nanosec) :=
  mapM_fileLines (fun l _ => l.text_isLine) fun l _ => readPingTime_text l

/-- A time without a sign is not negative. -/
theorem PingLine.nanosec_nonneg (l : PingLine) : 0 ≤ l.nanosec := by
  have habs : 0 ≤ l.time.abs := by
    unfold Decimal.abs
    split <;> positivity
  rw [nanosec, Decimal.value, l.time_nonneg]
  exact mul_nonneg habs (by decide +kernel)

end

/-- When the servers close their side late, what `handle_ping.py` plots, in exact arithmetic, is
read from the two files and counts the pairs of a measured time and a ping time. -/
theorem plotted_from_logs (fftconvolve : List ℚ → List ℚ → List ℚ) (hfft : IsSame fftconvolve)
    (clients : List HttpClient.Client) (lines : List PingLine)
    (hlate : ∀ c ∈ clients, c.ServedLate) (hlogged : ∃ c ∈ clients, c.hasLogged = true)
    (hlines : lines ≠ []) :
    ∃ totals : List Int,
      List.Forall₂ HttpClient.Client.Measured
        (clients.filter HttpClient.Client.hasLogged) totals ∧
      ∃ z pmf, plotted fftconvolve (HttpClient.requestLog clients) (pingFile lines) =
          some (z, pmf) ∧
        CountsPairs (totals.map fun total : Int => (total : ℚ)) (lines.map PingLine.nanosec)
          100000 z pmf := by
  have hnonneg : ∀ total ∈ HttpClient.totals clients, 0 ≤ total := by
    intro total htotal
    obtain ⟨c, hc, hlog⟩ := List.mem_filterMap.1 htotal
    exact HttpClient.nonneg_of_late (hlate c hc) hlog
  have hsome : HttpClient.totals clients ≠ [] := by
    obtain ⟨c, hc, hlog⟩ := hlogged
    obtain ⟨total, htotal⟩ := Option.isSome_iff_exists.1 hlog
    exact List.ne_nil_of_mem (List.mem_filterMap.2 ⟨c, hc, htotal⟩)
  obtain ⟨z, pmf, hconv, hcounts, -⟩ := counts_pairs fftconvolve hfft
    ((HttpClient.totals clients).map fun total : Int => (total : ℚ))
    (lines.map PingLine.nanosec) 100000 (by decide) (by simpa using hsome) (by simpa using hlines)
    (by simpa using hnonneg) (by simpa using fun l _ => l.nanosec_nonneg)
  refine ⟨HttpClient.totals clients, HttpClient.forall₂_totals clients, z, pmf, ?_, hcounts⟩
  rw [plotted, readScheduler_requestLog, readPing_pingFile]
  exact hconv

/-- A line of `ping`. -/
def firstPing : PingLine where
  head := "64 bytes from 127.0.0.1: icmp_seq=1 ttl=63 ".toList
  time :=
    { neg := false
      whole := ['0']
      frac := some ['6', '7', '3']
      whole_ne_nil := by decide
      whole_digits := by simp
      frac_digits := by simp }
  time_not_infix := by decide
  isLine := by decide
  time_nonneg := rfl

/-- A slower one. -/
def secondPing : PingLine where
  head := "64 bytes from 127.0.0.1: icmp_seq=2 ttl=63 ".toList
  time :=
    { neg := false
      whole := ['1', '2']
      frac := some ['8', '1']
      whole_ne_nil := by decide
      whole_digits := by simp
      frac_digits := by simp }
  time_not_infix := by decide
  isLine := by decide
  time_nonneg := rfl

/-- A client that was killed at its start, one that measured 20 ns, and two lines of `ping`. -/
theorem plotted_twoPings : ∃ c c' : HttpClient.Client, c.state.logged = some 20 ∧
    c'.hasLogged = false ∧ ∃ totals : List Int,
      List.Forall₂ HttpClient.Client.Measured ([c', c].filter HttpClient.Client.hasLogged) totals ∧
      ∃ z pmf, plotted same (HttpClient.requestLog [c', c]) (pingFile [firstPing, secondPing]) =
          some (z, pmf) ∧
        CountsPairs (totals.map fun total : Int => (total : ℚ))
          ([firstPing, secondPing].map PingLine.nanosec) 100000 z pmf := by
  have hlog : (exec (HttpClient.step 1) HttpClient.LateClose HttpClient.start
      (HttpClient.oneRequest ++ [HttpClient.Event.parent 0])).map (·.logged) =
        some (some 20) := by decide +kernel
  obtain ⟨s, hrun, hlogged⟩ := Option.map_eq_some_iff.1 hlog
  have hreach : Reach (HttpClient.step 1) HttpClient.LateClose HttpClient.start s :=
    .of_exec _ hrun
  have hkilled : Reach (HttpClient.step 2) HttpClient.LateClose HttpClient.start
      HttpClient.start.parentGone := .of_exec [.killParent] rfl
  let c : HttpClient.Client := ⟨1, s, hreach.free⟩
  let c' : HttpClient.Client := ⟨2, _, hkilled.free⟩
  have hhas : c.hasLogged = true := by
    rw [HttpClient.Client.hasLogged, hlogged]
    rfl
  refine ⟨c, c', hlogged, rfl,
    plotted_from_logs same isSame_same [c', c] [firstPing, secondPing] ?_ ?_ ?_⟩
  · intro d hd
    obtain rfl | hd := List.mem_cons.1 hd
    · exact hkilled
    · obtain rfl := List.mem_singleton.1 hd
      exact hreach
  · exact ⟨c, List.mem_cons_of_mem _ (List.mem_singleton_self c), hhas⟩
  · exact List.cons_ne_nil _ _

end HandlePing
