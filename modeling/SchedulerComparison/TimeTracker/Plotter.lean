import SchedulerComparison.Lib.Text
import SchedulerComparison.TimeTracker.SchedTracker

/-!
# What `plotter.py` and `periodic_plotter.py` read

`parse_snapshot` of the two scripts, which differ in one word, the split of the log into snapshots,
and the series that `plotter.py` makes of them. `F` is the type of Python's floats, with `round` the
float nearest to a rational number. An exception is `none`.
-/

namespace TimeTracker

section
variable {F : Type} [Div F] (round : ℚ → F)

/-- `float(s)`. -/
def float (s : Line) : Option F := (Text.numeral s).map round

/-- `float(line.split(":")[1])`. -/
def field (line : Line) : Option F := (line.splitOn ':')[1]?.bind (float round)

/-- `exec_start`, `vruntime` and `sum_exec` of a process, from the lines after its first
(`plotter.py:24-26`). -/
def triple (rest : List Line) : Option (F × F × F) := do
  let execStart ← field round (← rest[0]?)
  let vruntime ← field round (← rest[1]?)
  let sumExec ← field round (← rest[2]?)
  return (execStart, vruntime, sumExec / round 1000)

/-- What `parse_snapshot` returns. -/
structure Parsed (F : Type) where
  utime : F
  hackbenchTimes : List (F × F × F)
  gzip : Option (F × F × F)
  deriving DecidableEq

/-- The word that marks hackbench. -/
def hackbench : Line := "hackbench".toList

/-- The loop of `parse_snapshot` from a line on: `rest` are the lines after it, `lines[i+1:]`. The
other process is recognised by `word`. -/
def scan (word : Line) : List Line → List (F × F × F) → Option (F × F × F) →
    Option (List (F × F × F) × Option (F × F × F))
  | [], hackbenchTimes, gzip => some (hackbenchTimes, gzip)
  | line :: rest, hackbenchTimes, gzip =>
    if hackbench <:+: line then do
      let res := (← rest[0]?).splitOn ':'
      if res.length < 2 then scan word rest hackbenchTimes gzip
      else scan word rest (hackbenchTimes ++ [← triple round rest]) gzip
    else if word = line.take 4 then do
      scan word rest hackbenchTimes (some (← triple round rest))
    else scan word rest hackbenchTimes gzip

/-- `parse_snapshot` with the word that it compares `line[:4]` with. -/
def parseSnapshotWith (word content : Line) : Option (Parsed F) := do
  let lines := content.splitOn '\n'
  let utime ← float round (← ((← lines[0]?).splitOn ' ')[0]?)
  let (hackbenchTimes, gzip) ← scan round word (lines.drop 1) [] none
  return { utime, hackbenchTimes, gzip }

/-- `parse_snapshot` (`plotter.py:4`). -/
def Plotter.parseSnapshot (content : Line) : Option (Parsed F) :=
  parseSnapshotWith round "gzip".toList content

/-- `parse_snapshot` (`periodic_plotter.py:4`). -/
def PeriodicPlotter.parseSnapshot (content : Line) : Option (Parsed F) :=
  parseSnapshotWith round "toy_periodic".toList content

end

/-- `res.split("[TIME] ")[1:]` (`plotter.py:40`). -/
def timePts (res : List Char) : List Line := (Text.split timeMark res).drop 1

/-! ## The series -/

/-- The lists that `plotter.py` fills. -/
structure Series (F : Type) where
  utimeList : List F
  gzipUtimeList : List F
  gzipSumExec : List F
  gzipVruntime : List F
  hackbenchSumExecList : List (List F)
  hackbenchVruntimeList : List (List F)

section
variable {F : Type}

/-- The lists before the first snapshot (`plotter.py:56-62`). -/
def Series.empty : Series F where
  utimeList := []
  gzipUtimeList := []
  gzipSumExec := []
  gzipVruntime := []
  hackbenchSumExecList := [[], [], [], [], []]
  hackbenchVruntimeList := [[], [], [], [], []]

/-- `xss[i].append(x)`, an IndexError if there is no such list. -/
def appendAt (xss : List (List F)) (i : Nat) (x : F) : Option (List (List F)) :=
  if i < xss.length then some (xss.modify i (· ++ [x])) else none

/-- The loop over `enumerate(hackbench_times)` from index `i` on (`plotter.py:71-74`). -/
def recordHackbench (i : Nat) : List (F × F × F) → Series F → Option (Series F)
  | [], s => some s
  | (_, vruntime, sumExec) :: times, s => do
    let sumExecs ← appendAt s.hackbenchSumExecList i sumExec
    let vruntimes ← appendAt s.hackbenchVruntimeList i vruntime
    recordHackbench (i + 1) times
      { s with hackbenchSumExecList := sumExecs, hackbenchVruntimeList := vruntimes }

/-- What the body of the loop over `processed` does with a snapshot (`plotter.py:64-74`). -/
def record [Sub F] (minTime : F) (s : Series F) (snapshot : Parsed F) : Option (Series F) :=
  let utime := snapshot.utime - minTime
  let s := { s with utimeList := s.utimeList ++ [utime] }
  recordHackbench 0 snapshot.hackbenchTimes <|
    match snapshot.gzip with
    | none => s
    | some (_, vruntime, sumExec) =>
      { s with
        gzipUtimeList := s.gzipUtimeList ++ [utime]
        gzipSumExec := s.gzipSumExec ++ [sumExec]
        gzipVruntime := s.gzipVruntime ++ [vruntime] }

/-- `min(times)`, a ValueError if there are none. -/
def minTime [LT F] [DecidableLT F] : List F → Option F
  | [] => none
  | t :: times => some (times.foldl (fun m t => if t < m then t else m) t)

variable [Div F] (round : ℚ → F)

/-- `processed`: the snapshots with five occurrences of `hackbench` (`plotter.py:43-47`). -/
def Plotter.processed (res : List Char) : Option (List (Parsed F)) :=
  ((timePts res).filter fun pt => Text.count hackbench pt == 5).mapM (Plotter.parseSnapshot round)

/-- The series that `plotter.py` plots (`plotter.py:38-74`). -/
def Plotter.series [Sub F] [LT F] [DecidableLT F] (res : List Char) : Option (Series F) := do
  let processed ← Plotter.processed round res
  let minTime ← minTime (processed.map Parsed.utime)
  processed.foldlM (record minTime) Series.empty

end

end TimeTracker
