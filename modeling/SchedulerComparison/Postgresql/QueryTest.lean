import SchedulerComparison.Launcher.Results

/-!
# The measured queries

`main` of `postgresql/query_test.cpp` runs a query a hundred times and writes its duration to the
file `measurements`, which `output_file_to_data` of `postgresql/plotter.py` reads. Time passes at
any moment, and every call may fail. `measures` says for every run what is read back: the durations
of the queries that have ended with a good status, in their order, but for the one that is about to
be written; that the queries are ten seconds apart; and when the program exits, with which status,
and after how many calls.

Arithmetic is exact: a duration of `n` nanoseconds is `n / 10^6` milliseconds, and a float is a
rational number.
-/

open Transition Text

namespace QueryTest

/-! ## The program -/

/-- A query that has ended: the readings of the steady clock in front of `PQexec` and behind it, in
nanoseconds, and whether the status of its result is `PGRES_TUPLES_OK`. -/
structure Query where
  start : Nat
  finish : Nat
  tuplesOk : Bool
  deriving DecidableEq

/-- The control points of `main` and, for the iteration `i`, of `query_once`. -/
inductive Point where
  | checkArgs
  | openLog
  | head (i : Nat)
  | connect (i : Nat)
  | beforeQuery (i wake : Nat)
  | takeStart (i : Nat)
  | query (i start : Nat)
  | takeEnd (i start : Nat) (tuplesOk : Bool)
  | resultStatus (i : Nat) (q : Query)
  | write (i : Nat) (q : Query)
  | sleep (i wake : Nat)
  | next (i : Nat)
  | exited (status : Int)
  deriving DecidableEq

/-- The state of `main`: the clock, and the text of the file when it could be opened. `queries` is
not a variable of the source: the queries whose end was taken. -/
structure State where
  point : Point
  clock : Nat
  log : Option (List Char)
  queries : List Query

/-- What can happen next: time passes, or `main` makes its next call, which may fail. -/
inductive Event where
  | tick (nanosec : Nat)
  | call (ok : Bool)

/-- `5s`. -/
def fiveSeconds : Nat := 5000000000

/-- A duration in milliseconds (`query_test.cpp:46`). -/
def Query.ms (q : Query) : ℚ := Launcher.ms (q.finish - q.start : Nat)

/-- A line of the file, without its end (`query_test.cpp:65-69`). -/
def Query.line (q : Query) : List Char := (fixed 12 q.ms).text ++ " ms".toList

/-- `main` continues at a control point. -/
def State.goto (s : State) (l : Point) : State := { s with point := l }

/-- The end of the query is taken. -/
def State.takeEnd (s : State) (i start : Nat) (tuplesOk : Bool) : State :=
  let q : Query := ⟨start, s.clock, tuplesOk⟩
  { s with point := .resultStatus i q, queries := s.queries ++ [q] }

/-- The duration is written and flushed; nothing is written to a file that is not open. -/
def State.write (s : State) (q : Query) (l : Point) : State :=
  { s with point := l, log := s.log.map (· ++ q.line ++ ['\n']) }

/-- The next call of `main` (`query_test.cpp:54-73`) and of `query_once` (`query_test.cpp:13-47`). A
query fails when its result has another status, which is looked at behind its end. A sleep is over
when its time has passed. -/
def State.call (argc : Nat) (s : State) (ok : Bool) : Option State :=
  match s.point with
  | .checkArgs => some (s.goto (if argc ≠ 2 then .exited 1 else .openLog))
  | .openLog => some { s with point := .head 0, log := if ok then some [] else none }
  | .head i => some (s.goto (if i < 100 then .connect i else .exited 0))
  | .connect i => some (s.goto (if ok then .beforeQuery i (s.clock + fiveSeconds) else .exited 1))
  | .beforeQuery i wake => if wake ≤ s.clock then some (s.goto (.takeStart i)) else none
  | .takeStart i => some (s.goto (.query i s.clock))
  | .query i start => some (s.goto (.takeEnd i start ok))
  | .takeEnd i start tuplesOk => some (s.takeEnd i start tuplesOk)
  | .resultStatus i q => some (s.goto (if q.tuplesOk then .write i q else .exited 1))
  | .write i q => some (s.write q (.sleep i (s.clock + fiveSeconds)))
  | .sleep i wake => if wake ≤ s.clock then some (s.goto (.next i)) else none
  | .next i => some (s.goto (.head (i + 1)))
  | .exited _ => none

/-- One step. -/
def step (argc : Nat) (s : State) : Event → Option State
  | .tick nanosec => some { s with clock := s.clock + nanosec }
  | .call ok => s.call argc ok

/-- The start of the program. -/
def start : State := ⟨.checkArgs, 0, none, []⟩

/-- The query that has ended with a good status and is not written yet. -/
def Point.unwritten : Point → List Query
  | .resultStatus _ q => if q.tuplesOk then [q] else []
  | .write _ q => [q]
  | _ => []

/-- `main` has exited. -/
def Point.isExited : Point → Bool
  | .exited _ => true
  | _ => false

/-- A step of `main`. -/
def Event.isCall : Event → Bool
  | .tick _ => false
  | .call _ => true

end QueryTest

namespace PostgresqlPlotter

/-- A line of the file (`postgresql/plotter.py:6`); `none` is an exception. -/
def lineToData (line : List Char) : Option ℚ := do
  numeral (← (split [' '] (rstrip line))[0]?)

/-- `output_file_to_data` (`postgresql/plotter.py:4`), of the text of the file. -/
def outputFileToData (file : List Char) : Option (List ℚ) := (fileLines file).mapM lineToData

end PostgresqlPlotter

namespace QueryTest

/-! ## What is read back -/

section
variable {argc limit limit' i : Nat} {s s' : State} {e : Event} {l : Point} {ok : Bool}
  {queries : List Query}

/-- A line contains no character that is neither in a number nor in the unit. -/
theorem Query.not_mem_line (q : Query) {c : Char} (hc : Decimal.isChar c = false)
    (hms : c ∉ " ms".toList) : c ∉ q.line := by
  rw [Query.line, List.mem_append, not_or]
  exact ⟨Decimal.not_mem_text _ hc, hms⟩

/-- A line is read as its duration. -/
theorem lineToData_line (q : Query) :
    PostgresqlPlotter.lineToData (q.line ++ ['\n']) = some q.ms := by
  have hstrip : rstrip (q.line ++ ['\n']) = q.line := by
    have hend : q.line = (fixed 12 q.ms).text ++ [' ', 'm'] ++ ['s'] := by
      rw [Query.line, List.append_assoc]
      rfl
    rw [hend]
    exact rstrip_append ['\n'] (by simp [isSpace]) rfl
  have hsplit : split [' '] q.line = [(fixed 12 q.ms).text, "ms".toList] :=
    split_pair List.not_mem_nil
      (fun hin => Decimal.not_mem_text _ rfl (hin.subset List.mem_cons_self)) (by decide)
  have hvalue : (fixed 12 q.ms).value = q.ms := Launcher.value_time (q.finish - q.start)
  have hnumeral := (fixed 12 q.ms).numeral_text 0
  rw [hvalue] at hnumeral
  simpa [PostgresqlPlotter.lineToData, hstrip, hsplit] using hnumeral

/-- The lines of some queries are read as their durations. -/
theorem outputFileToData_lines (queries : List Query) :
    PostgresqlPlotter.outputFileToData (unlines '\n' (queries.map Query.line)) =
      some (queries.map Query.ms) :=
  mapM_fileLines
    (fun q _ => ⟨q.not_mem_line rfl (by decide), q.not_mem_line rfl (by decide)⟩)
    fun q _ => lineToData_line q

/-- The queries that have ended with a good status. -/
def State.measured (s : State) : List Query := s.queries.filter Query.tuplesOk

/-- What was written, if the file could be opened, is the good queries but for the one that is about
to be written. -/
def State.Wrote (s : State) : Prop :=
  ∀ text, s.log = some text →
    ∃ written, text = unlines '\n' (written.map Query.line) ∧
      written ++ s.point.unwritten = s.measured

/-! ## When the queries are run -/

/-- The queries do not overlap, and the last one is five seconds back at `limit`. -/
structure Over (queries : List Query) (limit : Nat) : Prop where
  ordered : ∀ q ∈ queries, q.start ≤ q.finish
  spaced : queries.Pairwise fun a b => a.finish + 2 * fiveSeconds ≤ b.start
  rested : ∀ q ∈ queries, q.finish + fiveSeconds ≤ limit

/-- So many queries are over, and all have a good status. -/
structure Iterated (queries : List Query) (i limit : Nat) : Prop extends Over queries limit where
  count : queries.length = i
  good : ∀ q ∈ queries, q.tuplesOk = true

/-- The query `q` has ended, behind `i` others. -/
structure Ran (queries : List Query) (i : Nat) (q : Query) (clock : Nat) : Prop where
  split : ∃ before, queries = before ++ [q] ∧ Iterated before i (q.start - fiveSeconds)
  lt : i < 100
  le : q.start ≤ q.finish
  past : q.finish ≤ clock

/-- How the program exits. -/
def Ended (queries : List Query) (status : Int) : Prop :=
  status = 0 ∧ (queries.filter Query.tuplesOk).length = 100 ∨
    status = 1 ∧ (queries.filter Query.tuplesOk).length < 100

/-- What holds at a control point. -/
def Point.Holds (queries : List Query) (clock : Nat) : Point → Prop
  | .checkArgs | .openLog => queries = []
  | .head i => Iterated queries i clock ∧ i ≤ 100
  | .connect i => Iterated queries i clock ∧ i < 100
  | .beforeQuery i wake => Iterated queries i (wake - fiveSeconds) ∧ i < 100
  | .takeStart i => Iterated queries i (clock - fiveSeconds) ∧ i < 100
  | .query i start | .takeEnd i start _ =>
    Iterated queries i (start - fiveSeconds) ∧ i < 100 ∧ start ≤ clock
  | .resultStatus i q => Ran queries i q clock
  | .write i q => Ran queries i q clock ∧ q.tuplesOk = true
  | .sleep i wake => Iterated queries (i + 1) wake ∧ i < 100
  | .next i => Iterated queries (i + 1) clock ∧ i < 100
  | .exited status => Ended queries status ∧ queries.length ≤ 100 ∧ ∃ limit, Over queries limit

/-- What holds in every state reached. -/
def State.At (s : State) : Prop := s.point.Holds s.queries s.clock

theorem Over.mono (h : Over queries limit) (hle : limit ≤ limit') : Over queries limit' :=
  ⟨h.ordered, h.spaced, fun q hq => (h.rested q hq).trans hle⟩

theorem Iterated.mono (h : Iterated queries i limit) (hle : limit ≤ limit') :
    Iterated queries i limit' := ⟨h.toOver.mono hle, h.count, h.good⟩

/-- Without queries none is to be waited for. -/
theorem iterated_nil (limit : Nat) : Iterated [] 0 limit := by
  refine ⟨⟨?_, List.Pairwise.nil, ?_⟩, rfl, ?_⟩ <;> simp

/-- A query behind the others. -/
theorem Over.append {q : Query} (h : Over queries (q.start - fiveSeconds))
    (hle : q.start ≤ q.finish) : Over (queries ++ [q]) (q.finish + fiveSeconds) := by
  have hfive : fiveSeconds = 5000000000 := rfl
  refine ⟨?_, ?_, ?_⟩
  · intro r hr
    rcases List.mem_append.1 hr with hr | hr
    · exact h.ordered r hr
    · obtain rfl := List.mem_singleton.1 hr
      exact hle
  · refine List.pairwise_append.2 ⟨h.spaced, List.pairwise_singleton _ _, fun a ha b hb => ?_⟩
    obtain rfl := List.mem_singleton.1 hb
    have hrested := h.rested a ha
    omega
  · intro r hr
    rcases List.mem_append.1 hr with hr | hr
    · have hrested := h.rested r hr
      omega
    · obtain rfl := List.mem_singleton.1 hr
      exact Nat.le_refl _

/-- The queries are over when the last one is. -/
theorem Ran.over {q : Query} {clock : Nat} (h : Ran queries i q clock) :
    Over queries (q.finish + fiveSeconds) := by
  obtain ⟨before, rfl, hbefore⟩ := h.split
  exact hbefore.toOver.append h.le

/-- There is one query more. -/
theorem Ran.length {q : Query} {clock : Nat} (h : Ran queries i q clock) :
    queries.length = i + 1 := by
  obtain ⟨before, rfl, hbefore⟩ := h.split
  rw [List.length_append, List.length_singleton, hbefore.count]

/-- A query with a good status ends the iteration. -/
theorem Ran.iterated {q : Query} {clock : Nat} (h : Ran queries i q clock)
    (hq : q.tuplesOk = true) : Iterated queries (i + 1) (clock + fiveSeconds) := by
  refine ⟨h.over.mono (Nat.add_le_add_right h.past _), h.length, fun r hr => ?_⟩
  obtain ⟨before, rfl, hbefore⟩ := h.split
  rcases List.mem_append.1 hr with hr | hr
  · exact hbefore.good r hr
  · rwa [List.mem_singleton.1 hr]

/-- The queries that are over all count. -/
theorem Iterated.length_filter (h : Iterated queries i limit) :
    (queries.filter Query.tuplesOk).length = i := by
  rw [List.filter_eq_self.2 h.good, h.count]

/-- A failed call in front of the query ends the program. -/
theorem Iterated.failed {clock : Nat} (h : Iterated queries i limit) (hi : i < 100) :
    (Point.exited 1).Holds queries clock :=
  ⟨.inr ⟨rfl, h.length_filter.trans_lt hi⟩, h.count.trans_le hi.le, limit, h.toOver⟩

/-- A query with another status ends the program. -/
theorem Ran.failed {q : Query} {clock clock' : Nat} (h : Ran queries i q clock)
    (hq : q.tuplesOk = false) : (Point.exited 1).Holds queries clock' := by
  refine ⟨.inr ⟨rfl, ?_⟩, h.length.trans_le h.lt, _, h.over⟩
  obtain ⟨before, rfl, hbefore⟩ := h.split
  rw [List.filter_append, List.filter_cons_of_neg (by rw [hq]; decide), List.filter_nil,
    List.append_nil, hbefore.length_filter]
  exact h.lt

/-- Time passes. -/
theorem Point.Holds.tick {clock nanosec : Nat} (h : l.Holds queries clock) :
    l.Holds queries (clock + nanosec) := by
  have hle : clock ≤ clock + nanosec := Nat.le_add_right _ _
  have hran : ∀ {i q}, Ran queries i q clock → Ran queries i q (clock + nanosec) :=
    fun hr => ⟨hr.split, hr.lt, hr.le, hr.past.trans hle⟩
  cases l with
  | checkArgs | openLog | beforeQuery | sleep | exited => exact h
  | head i | connect i | next i => exact ⟨h.1.mono hle, h.2⟩
  | takeStart i => exact ⟨h.1.mono (Nat.sub_le_sub_right hle _), h.2⟩
  | query i start | takeEnd i start tuplesOk => exact ⟨h.1, h.2.1, h.2.2.trans hle⟩
  | resultStatus i q => exact hran h
  | write i q => exact ⟨hran h.1, h.2⟩

/-- Every call keeps what holds at the control points. -/
theorem at_call (h : s.At) (hs : s.call argc ok = some s') : s'.At := by
  unfold State.At at h
  have hgoto : ∀ {l : Point}, l.Holds s.queries s.clock → (s.goto l).At := fun hl => hl
  cases hp : s.point <;> rw [hp] at h <;> simp only [State.call, hp] at hs
  case checkArgs =>
    have hnil : s.queries = [] := h
    cases hs
    refine hgoto ?_
    split
    · exact (hnil ▸ iterated_nil 0 : Iterated s.queries 0 0).failed (by decide)
    · exact hnil
  case openLog =>
    have hnil : s.queries = [] := h
    cases hs
    exact ⟨hnil ▸ iterated_nil _, Nat.zero_le _⟩
  case head i =>
    obtain ⟨hi, hle⟩ := h
    cases hs
    refine hgoto ?_
    split
    · next hlt => exact ⟨hi, hlt⟩
    · exact ⟨.inl ⟨rfl, by rw [hi.length_filter]; omega⟩, hi.count.trans_le hle, s.clock, hi.toOver⟩
  case connect i =>
    cases hs
    refine hgoto ?_
    split
    · exact ⟨h.1.mono (Nat.le_of_eq (Nat.add_sub_cancel ..).symm), h.2⟩
    · exact h.1.failed h.2
  case beforeQuery i wake =>
    split at hs <;> cases hs
    next hwake => exact hgoto ⟨h.1.mono (Nat.sub_le_sub_right hwake _), h.2⟩
  case takeStart i =>
    cases hs
    exact hgoto ⟨h.1, h.2, Nat.le_refl _⟩
  case query i start =>
    cases hs
    exact hgoto h
  case takeEnd i start tuplesOk =>
    cases hs
    exact ⟨⟨s.queries, rfl, h.1⟩, h.2.1, h.2.2, Nat.le_refl _⟩
  case resultStatus i q =>
    cases hs
    refine hgoto ?_
    split
    · next hq => exact ⟨h, hq⟩
    · next hq => exact h.failed (Bool.eq_false_iff.2 hq)
  case write i q =>
    cases hs
    exact ⟨h.1.iterated h.2, h.1.lt⟩
  case sleep i wake =>
    split at hs <;> cases hs
    next hwake => exact hgoto ⟨h.1.mono hwake, h.2⟩
  case next i =>
    cases hs
    exact hgoto h
  case exited => cases hs

/-- Every call keeps what is in the file. -/
theorem wrote_call (h : s.At) (hw : s.Wrote) (hs : s.call argc ok = some s') : s'.Wrote := by
  unfold State.At at h
  have hgoto : ∀ {l : Point}, l.unwritten = s.point.unwritten → (s.goto l).Wrote := by
    intro l hl text htext
    obtain ⟨written, heq, hall⟩ := hw text htext
    exact ⟨written, heq, (congrArg (written ++ ·) hl).trans hall⟩
  cases hp : s.point <;> rw [hp] at h hgoto <;> simp only [State.call, hp] at hs
  case checkArgs | head | connect =>
    cases hs
    refine hgoto ?_
    split <;> rfl
  case openLog =>
    cases hs
    intro text htext
    refine ⟨[], ?_, ?_⟩
    · cases ok <;> cases htext
      rfl
    · rw [State.measured, show s.queries = [] from h]
      rfl
  case beforeQuery | sleep =>
    split at hs <;> cases hs
    exact hgoto rfl
  case takeStart | query | next =>
    cases hs
    exact hgoto rfl
  case takeEnd i start tuplesOk =>
    cases hs
    intro text htext
    obtain ⟨written, heq, hall⟩ := hw text htext
    rw [hp] at hall
    refine ⟨written, heq, ?_⟩
    show _ = (s.queries ++ [_]).filter Query.tuplesOk
    rw [List.filter_append, ← State.measured, ← hall]
    cases tuplesOk <;> simp [State.takeEnd, Point.unwritten]
  case resultStatus i q =>
    cases hs
    refine hgoto ?_
    split
    · next hq => exact (if_pos hq).symm
    · next hq => exact (if_neg hq).symm
  case write i q =>
    cases hs
    intro text htext
    obtain ⟨before, hbefore, rfl⟩ := Option.map_eq_some_iff.1 htext
    obtain ⟨written, rfl, hall⟩ := hw before hbefore
    rw [hp] at hall
    refine ⟨written ++ [q], ?_, (List.append_nil _).trans hall⟩
    rw [List.map_append, unlines_append, List.append_assoc, List.map_singleton, unlines_cons,
      unlines_nil]
  case exited => cases hs

/-- Every step keeps what holds. -/
theorem at_step (h : s.At) (hw : s.Wrote) (hs : step argc s e = some s') : s'.At ∧ s'.Wrote := by
  cases e with
  | tick nanosec =>
    cases hs
    exact ⟨Point.Holds.tick h, hw⟩
  | call ok => exact ⟨at_call h hs, wrote_call h hw hs⟩

/-- What holds at the start. -/
theorem at_start : start.At ∧ start.Wrote := ⟨rfl, by rintro text ⟨⟩⟩

theorem reach_at (h : Reach (step argc) Free start s) : s.At ∧ s.Wrote :=
  h.invariant (I := fun s => s.At ∧ s.Wrote) at_start fun _ _ _ hi _ hs => at_step hi.1 hi.2 hs

/-! ## The loop ends -/

/-- The calls that are left at a control point, at most. -/
def Point.rest : Point → Nat
  | .checkArgs => 1003
  | .openLog => 1002
  | .head i => 10 * (100 - i) + 1
  | .connect i => 10 * (100 - i)
  | .beforeQuery i _ => 10 * (99 - i) + 9
  | .takeStart i => 10 * (99 - i) + 8
  | .query i _ => 10 * (99 - i) + 7
  | .takeEnd i _ _ => 10 * (99 - i) + 6
  | .resultStatus i _ => 10 * (99 - i) + 5
  | .write i _ => 10 * (99 - i) + 4
  | .sleep i _ => 10 * (99 - i) + 3
  | .next i => 10 * (99 - i) + 2
  | .exited _ => 0

/-- Every call leaves less to do. -/
theorem rest_call (h : s.At) (hs : s.call argc ok = some s') : s'.point.rest < s.point.rest := by
  unfold State.At at h
  cases hp : s.point <;> rw [hp] at h <;> simp only [State.call, hp] at hs
  case exited => cases hs
  case beforeQuery | sleep =>
    split at hs <;> cases hs
    exact Nat.lt_succ_self _
  case connect i =>
    have hlt : i < 100 := h.2
    cases hs
    dsimp only [State.goto]
    split
    · simp only [Point.rest]
      omega
    · simp only [Point.rest]
      omega
  case next i =>
    have hlt : i < 100 := h.2
    cases hs
    simp only [State.goto, Point.rest]
    omega
  case checkArgs | head | resultStatus =>
    cases hs
    dsimp only [State.goto]
    split
    · simp only [Point.rest]
      omega
    · simp only [Point.rest]
      omega
  case openLog | takeStart | query | takeEnd | write =>
    cases hs
    exact Nat.lt_succ_self _

/-- Before it has exited the program can go on, if only time passes, whether its call fails or
not. -/
theorem call_goes (hl : s.point.isExited = false) (ok : Bool) : ∃ nanosec s₁ s₂,
    step argc s (.tick nanosec) = some s₁ ∧ step argc s₁ (.call ok) = some s₂ := by
  have hgo : ∀ nanosec, (State.call argc { s with clock := s.clock + nanosec } ok).isSome →
      ∃ nanosec s₁ s₂, step argc s (.tick nanosec) = some s₁ ∧
        step argc s₁ (.call ok) = some s₂ := by
    intro nanosec h
    obtain ⟨s₂, hs⟩ := Option.isSome_iff_exists.1 h
    exact ⟨nanosec, _, s₂, rfl, hs⟩
  cases hp : s.point with
  | beforeQuery i wake | sleep i wake =>
    have hwake : wake ≤ s.clock + wake := Nat.le_add_left _ _
    refine hgo wake ?_
    simp only [State.call, hp, if_pos hwake, Option.isSome_some]
  | exited =>
    rw [hp] at hl
    cases hl
  | _ =>
    refine hgo 0 ?_
    simp only [State.call, hp, Option.isSome_some]

/-! ## The theorem -/

/-- What was measured: what is read back are the durations of the good queries, but for the one that
is about to be written, the queries are ten seconds apart, and the status of the program tells
whether a hundred were good. -/
structure State.Measured (s : State) : Prop where
  readBack : ∀ text, s.log = some text → ∃ read,
    PostgresqlPlotter.outputFileToData text = some read ∧
      read ++ s.point.unwritten.map Query.ms = s.measured.map Query.ms
  ordered : ∀ q ∈ s.queries, q.start ≤ q.finish
  spaced : s.queries.Pairwise fun a b => a.finish + 2 * fiveSeconds ≤ b.start
  few : s.queries.length ≤ 100
  exited : ∀ status, s.point = .exited status → Ended s.queries status

/-- What the program does: it measures, and it comes to its end. -/
structure Measures (argc : Nat) : Prop where
  measured : ∀ s, Reach (step argc) Free start s → s.Measured
  goesOn : ∀ s, Reach (step argc) Free start s → s.point.isExited = false → ∀ ok,
    ∃ nanosec s₁ s₂, step argc s (.tick nanosec) = some s₁ ∧
      step argc s₁ (.call ok) = some s₂
  bounded : ∀ es s, exec (step argc) Free start es = some s → es.countP Event.isCall ≤ 1003

/-- At every control point the queries so far are over at some time, and they are at most a
hundred. -/
theorem Point.Holds.exists_over {clock : Nat} (h : l.Holds queries clock) :
    (∃ limit, Over queries limit) ∧ queries.length ≤ 100 := by
  have hiterated : ∀ {i limit}, Iterated queries i limit → i ≤ 100 →
      (∃ limit, Over queries limit) ∧ queries.length ≤ 100 :=
    fun hi hle => ⟨⟨_, hi.toOver⟩, hi.count.trans_le hle⟩
  have hran : ∀ {i q}, Ran queries i q clock →
      (∃ limit, Over queries limit) ∧ queries.length ≤ 100 :=
    fun hr => ⟨⟨_, hr.over⟩, hr.length.trans_le hr.lt⟩
  cases l with
  | checkArgs | openLog =>
    obtain rfl : queries = [] := h
    exact hiterated (iterated_nil 0) (Nat.zero_le _)
  | head i => exact hiterated h.1 h.2
  | connect i | beforeQuery i wake | takeStart i => exact hiterated h.1 (Nat.le_of_lt h.2)
  | query i start | takeEnd i start tuplesOk => exact hiterated h.1 h.2.1.le
  | resultStatus i q => exact hran h
  | write i q => exact hran h.1
  | sleep i wake | next i => exact hiterated h.1 h.2
  | exited status => exact ⟨h.2.2, h.2.1⟩

/-- The program does so, for every number of arguments. -/
theorem measures (argc : Nat) : Measures argc where
  measured s hr := by
    obtain ⟨hat, hw⟩ := reach_at hr
    obtain ⟨⟨limit, ho⟩, hfew⟩ := hat.exists_over
    refine ⟨fun text htext => ?_, ho.ordered, ho.spaced, hfew, fun status hp => ?_⟩
    · obtain ⟨written, rfl, hall⟩ := hw text htext
      refine ⟨written.map Query.ms, outputFileToData_lines written, ?_⟩
      rw [← List.map_append, hall]
    · unfold State.At at hat
      rw [hp] at hat
      exact hat.1
  goesOn _ _ hl ok := call_goes hl ok
  bounded es s h := by
    refine exec_kind_le (I := fun s => s.At ∧ s.Wrote) (fun s => s.point.rest)
      Event.isCall (fun s e s' hi _ hs => ⟨at_step hi.1 hi.2 hs, ?_⟩) es at_start h
    cases e with
    | tick =>
      cases hs
      exact Nat.le_refl _
    | call ok => exact rest_call hi.1 hs

end

end QueryTest
