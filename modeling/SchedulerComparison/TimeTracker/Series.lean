import Mathlib.Algebra.Order.BigOperators.Group.List
import Mathlib.Algebra.Order.Group.Nat
import SchedulerComparison.Lib.Sums
import SchedulerComparison.TimeTracker.CutFiles

/-!
# The series of `plotter.py`

`plotter.py` takes a snapshot for one with five hackbench processes when `hackbench` occurs five
times in its text, and then adds a value to a series for each entry that it can read.
`aligned_exactly` shows when each of the five series has got a value for each entry of `utime_list`:
when no snapshot that is taken has lost a number of hackbench or gzip to a process that disappeared.
-/

namespace TimeTracker

/-! ## What is claimed of the series -/

/-- Each of the five series of hackbench has as many values as `utime_list`. -/
structure Series.Aligned {F : Type} (s : Series F) : Prop where
  sumExec : s.hackbenchSumExecList.map List.length = List.replicate 5 s.utimeList.length
  vruntime : s.hackbenchVruntimeList.map List.length = List.replicate 5 s.utimeList.length

/-- The snapshot has five occurrences of `hackbench`. -/
def CutSnapshot.Admitted (s : CutSnapshot) : Prop := Text.count hackbench s.body = 5

instance (s : CutSnapshot) : Decidable s.Admitted := inferInstanceAs (Decidable (_ = _))

/-- The snapshots that `plotter.py` takes. -/
def admitted (snapshots : List CutSnapshot) : List CutSnapshot :=
  snapshots.filter fun s => s.Admitted

/-- The process was there for as long as it was read, if it is one that is read: one of hackbench,
with the word once in its first line, or gzip. -/
structure CutProcess.Whole (p : CutProcess) : Prop where
  hackbench : ∀ f ∈ p.started, f.IsHackbench → p.cut = none ∧ Text.count hackbench f.firstLine = 1
  gzip : ∀ f ∈ p.started, f.IsGzip → p.cut = none

instance (p : CutProcess) : Decidable p.Whole :=
  decidable_of_iff
    ((∀ f ∈ p.started, f.IsHackbench → p.cut = none ∧ Text.count hackbench f.firstLine = 1) ∧
      ∀ f ∈ p.started, f.IsGzip → p.cut = none)
    ⟨fun h => ⟨h.1, h.2⟩, fun h => ⟨h.hackbench, h.gzip⟩⟩

/-! ## Adding to the series -/

section
variable {F : Type} {xss yss zss : List (List F)} {m n : Nat → Nat}

/-- List `j` of `yss` has `n j` elements more than that of `xss`. -/
def Longer (n : Nat → Nat) (xss yss : List (List F)) : Prop :=
  ∀ j, (yss[j]?).map List.length = (xss[j]?).map fun xs => xs.length + n j

theorem Longer.refl (xss : List (List F)) : Longer (fun _ => 0) xss xss := fun _ => rfl

theorem Longer.trans (h : Longer m xss yss) (h' : Longer n yss zss) :
    Longer (fun j => m j + n j) xss zss := by
  intro j
  have hlen : (yss[j]?).map (fun ys => ys.length + n j) =
      ((yss[j]?).map List.length).map (· + n j) := by
    rw [Option.map_map]
    rfl
  rw [h' j, hlen, h j, Option.map_map]
  simp [Function.comp_def, Nat.add_assoc]

/-- There are as many lists. -/
theorem Longer.length_eq (h : Longer n xss yss) : yss.length = xss.length := by
  have hnone : ∀ j : Nat, yss[j]? = none ↔ xss[j]? = none := by
    intro j
    have hlen : (yss[j]?).map List.length = none ↔ yss[j]? = none := Option.map_eq_none_iff
    rw [← hlen, h j, Option.map_eq_none_iff]
  simp only [List.getElem?_eq_none_iff] at hnone
  exact Nat.le_antisymm ((hnone _).2 (Nat.le_refl _)) ((hnone _).1 (Nat.le_refl _))

/-- Appending to a list that exists. -/
theorem appendAt_spec {i : Nat} (hi : i < xss.length) (x : F) :
    ∃ yss, appendAt xss i x = some yss ∧ Longer (fun j => if i = j then 1 else 0) xss yss := by
  refine ⟨_, if_pos hi, fun j => ?_⟩
  rw [List.getElem?_modify, Option.map_eq_map, Option.map_map]
  congr 1
  funext xs
  show (if i = j then xs ++ [x] else xs).length = xs.length + if i = j then 1 else 0
  split
  · exact List.length_append
  · rfl

variable {s s' : Series F}

/-- The series of hackbench are longer in a state, and the times are the same. -/
structure Series.Recorded (n : Nat → Nat) (s s' : Series F) : Prop where
  utime : s'.utimeList = s.utimeList
  sumExec : Longer n s.hackbenchSumExecList s'.hackbenchSumExecList
  vruntime : Longer n s.hackbenchVruntimeList s'.hackbenchVruntimeList

/-- The values of a snapshot go to as many series. -/
theorem recordHackbench_spec {i : Nat} (times : List (F × F × F))
    (hsum : i + times.length ≤ s.hackbenchSumExecList.length)
    (hvrun : i + times.length ≤ s.hackbenchVruntimeList.length) :
    ∃ s', recordHackbench i times s = some s' ∧
      s.Recorded (fun j => if i ≤ j ∧ j < i + times.length then 1 else 0) s' := by
  induction times generalizing i s with
  | nil =>
    refine ⟨s, rfl, ?_⟩
    have hzero : (fun j => if i ≤ j ∧ j < i + ([] : List (F × F × F)).length then 1 else 0) =
        fun _ => 0 := by
      funext j
      exact if_neg fun h => absurd h.2 (Nat.not_lt.2 h.1)
    rw [hzero]
    exact ⟨rfl, .refl _, .refl _⟩
  | cons t times ih =>
    obtain ⟨e, v, x⟩ := t
    rw [List.length_cons] at hsum hvrun
    obtain ⟨sums, hsums, hlsum⟩ :=
      appendAt_spec (show i < s.hackbenchSumExecList.length by omega) x
    obtain ⟨vruns, hvruns, hlvrun⟩ :=
      appendAt_spec (show i < s.hackbenchVruntimeList.length by omega) v
    have hsum' : i + 1 + times.length ≤ sums.length := by
      rw [hlsum.length_eq]
      omega
    have hvrun' : i + 1 + times.length ≤ vruns.length := by
      rw [hlvrun.length_eq]
      omega
    obtain ⟨s', hs', hrec⟩ := ih
      (s := { s with hackbenchSumExecList := sums, hackbenchVruntimeList := vruns }) hsum' hvrun'
    have hadd : (fun j => if i ≤ j ∧ j < i + (times.length + 1) then 1 else 0) = fun j =>
        (if i = j then 1 else 0) + if i + 1 ≤ j ∧ j < i + 1 + times.length then 1 else 0 := by
      funext j
      split_ifs <;> omega
    refine ⟨s', ?_, hrec.utime, ?_, ?_⟩
    · rw [recordHackbench, hsums, hvruns]
      exact hs'
    · rw [List.length_cons, hadd]
      exact hlsum.trans hrec.sumExec
    · rw [List.length_cons, hadd]
      exact hlvrun.trans hrec.vruntime

/-- What snapshots have added to the series: a time each, and a value to each series that is not
after the last of their entries. -/
structure Series.Extended (snapshots : List (Parsed F)) (s s' : Series F) : Prop where
  utime : s'.utimeList.length = s.utimeList.length + snapshots.length
  sumExec : Longer (fun j => snapshots.countP (j < ·.hackbenchTimes.length)) s.hackbenchSumExecList
    s'.hackbenchSumExecList
  vruntime : Longer (fun j => snapshots.countP (j < ·.hackbenchTimes.length))
    s.hackbenchVruntimeList s'.hackbenchVruntimeList

/-- The step lemma: a snapshot of at most five entries. -/
theorem record_spec [Sub F] (minTime : F) {snapshot : Parsed F}
    (hlen : snapshot.hackbenchTimes.length ≤ 5) (hsum : s.hackbenchSumExecList.length = 5)
    (hvrun : s.hackbenchVruntimeList.length = 5) :
    ∃ s', record minTime s snapshot = some s' ∧ s.Extended [snapshot] s' := by
  have hcount : (fun j => if 0 ≤ j ∧ j < 0 + snapshot.hackbenchTimes.length then 1 else 0) =
      fun j => [snapshot].countP (j < ·.hackbenchTimes.length) := by
    funext j
    simp [List.countP_cons]
  have hspec : ∀ t : Series F, t.utimeList = s.utimeList ++ [snapshot.utime - minTime] →
      t.hackbenchSumExecList = s.hackbenchSumExecList →
      t.hackbenchVruntimeList = s.hackbenchVruntimeList →
      ∃ s', recordHackbench 0 snapshot.hackbenchTimes t = some s' ∧ s.Extended [snapshot] s' := by
    intro t hu hs hv
    obtain ⟨s', hs', hrec⟩ := recordHackbench_spec (i := 0) (s := t) snapshot.hackbenchTimes
      (by rw [hs]; omega) (by rw [hv]; omega)
    rw [hcount] at hrec
    refine ⟨s', hs', ?_, hs ▸ hrec.sumExec, hv ▸ hrec.vruntime⟩
    rw [hrec.utime, hu, List.length_append]
    rfl
  unfold record
  cases snapshot.gzip with
  | none => exact hspec _ rfl rfl rfl
  | some t => exact hspec _ rfl rfl rfl

/-- The run lemma: all snapshots. -/
theorem foldlM_record [Sub F] (minTime : F) {snapshots : List (Parsed F)}
    (hlen : ∀ p ∈ snapshots, p.hackbenchTimes.length ≤ 5) (hsum : s.hackbenchSumExecList.length = 5)
    (hvrun : s.hackbenchVruntimeList.length = 5) :
    ∃ s', snapshots.foldlM (record minTime) s = some s' ∧ s.Extended snapshots s' := by
  induction snapshots generalizing s with
  | nil => exact ⟨s, rfl, rfl, .refl _, .refl _⟩
  | cons p ps ih =>
    obtain ⟨s₁, h₁, hp⟩ := record_spec minTime (hlen p List.mem_cons_self) hsum hvrun
    obtain ⟨s₂, h₂, hps⟩ := ih (fun q hq => hlen q (List.mem_cons_of_mem p hq))
      (hp.sumExec.length_eq.trans hsum) (hp.vruntime.length_eq.trans hvrun)
    have hcount : (fun j => (p :: ps).countP (j < ·.hackbenchTimes.length)) = fun j =>
        [p].countP (j < ·.hackbenchTimes.length) + ps.countP (j < ·.hackbenchTimes.length) :=
      funext fun j => show ([p] ++ ps).countP _ = _ from List.countP_append
    refine ⟨s₂, ?_, ?_, ?_, ?_⟩
    · rw [List.foldlM_cons, h₁]
      exact h₂
    · rw [hps.utime, hp.utime, List.length_cons, List.length_cons, List.length_nil]
      omega
    · rw [hcount]
      exact hp.sumExec.trans hps.sumExec
    · rw [hcount]
      exact hp.vruntime.trans hps.vruntime

/-- The series are as long as the times exactly when every snapshot has five entries. -/
theorem Series.Extended.aligned_iff {snapshots : List (Parsed F)}
    (h : Series.empty.Extended snapshots s) :
    s.Aligned ↔ ∀ p ∈ snapshots, 5 ≤ p.hackbenchTimes.length := by
  have hutime : s.utimeList.length = snapshots.length := h.utime.trans (Nat.zero_add _)
  have hcount : ∀ j, snapshots.countP (j < ·.hackbenchTimes.length) = snapshots.length ↔
      ∀ p ∈ snapshots, j < p.hackbenchTimes.length := by
    intro j
    simp only [List.countP_eq_length, decide_eq_true_eq]
  have hmap : ∀ {n : Nat → Nat} {xss : List (List F)}, Longer n [[], [], [], [], []] xss →
      xss.map List.length = [n 0, n 1, n 2, n 3, n 4] := by
    intro n xss hl
    refine List.ext_getElem? fun j => ?_
    rw [List.getElem?_map, hl j]
    rcases j with _ | _ | _ | _ | _ | j <;> simp
  have hsum := hmap h.sumExec
  have hvrun := hmap h.vruntime
  constructor
  · rintro ⟨haligned, -⟩
    rw [hsum, hutime] at haligned
    -- the last series has got a value from each
    have hlast : snapshots.countP (4 < ·.hackbenchTimes.length) = snapshots.length := by
      have := congrArg (·[4]?) haligned
      simpa using this
    exact (hcount 4).1 hlast
  · intro hall
    have heach : ∀ j < 5, snapshots.countP (j < ·.hackbenchTimes.length) = snapshots.length :=
      fun j hj => (hcount j).2 fun p hp => Nat.lt_of_lt_of_le hj (hall p hp)
    refine ⟨?_, ?_⟩
    · rw [hsum, hutime, heach 0 (by omega), heach 1 (by omega), heach 2 (by omega),
        heach 3 (by omega), heach 4 (by omega)]
      rfl
    · rw [hvrun, hutime, heach 0 (by omega), heach 1 (by omega), heach 2 (by omega),
        heach 3 (by omega), heach 4 (by omega)]
      rfl

end

/-! ## Counting hackbench -/

namespace CutProcess

/-- How often `hackbench` occurs in what is written of the process. -/
def hits (p : CutProcess) : Nat :=
  (p.started.map fun f => Text.count hackbench f.firstLine).getD 0

/-- How many entries of hackbench are read of the process. -/
def entries (p : CutProcess) : Nat := (hackbenchFiles p.whole.toList).length

variable {p : CutProcess}

/-- Nothing is read of the file of a process, or all of it, or a part from the first line on. -/
theorem read_cases (p : CutProcess) :
    (p.started = none ∧ p.whole = none ∧ ¬ p.Breaks) ∨
      (∃ f, p.started = some f ∧ p.cut = none ∧ p.whole = some f ∧ ¬ p.Breaks) ∨
      ∃ f k, p.started = some f ∧ p.cut = some k ∧ p.whole = none ∧ 1 ≤ k ∧
        (p.Breaks ↔ f.Breaks k) := by
  unfold started whole Breaks
  cases p.process.sched with
  | none => exact .inl (by simp)
  | some f =>
    cases p.cut with
    | none => exact .inr (.inl ⟨f, by simp⟩)
    | some k =>
      rcases Nat.eq_zero_or_pos k.val with hk | hk
      · obtain rfl : k = 0 := Fin.ext hk
        exact .inl (by simp [SchedFile.Breaks])
      · have hne : k ≠ 0 := fun h => Nat.ne_of_gt hk (congrArg Fin.val h)
        exact .inr (.inr ⟨f, k, by simp [hne], rfl, by simp, hk, by simp⟩)

/-- The word occurs in the first line of hackbench, and nowhere in another one. -/
theorem count_firstLine (f : SchedFile) :
    (f.IsHackbench → 1 ≤ Text.count hackbench f.firstLine) ∧
      (¬ f.IsHackbench → Text.count hackbench f.firstLine = 0) :=
  ⟨Text.count_pos (by decide), Text.count_eq_zero⟩

theorem length_hackbenchFiles_singleton (f : SchedFile) :
    (hackbenchFiles [f]).length = if f.IsHackbench then 1 else 0 := by
  by_cases hh : f.IsHackbench
  · have hin : hackbench <:+: f.firstLine := hh
    simp [hackbenchFiles, hh, hin]
  · have hin : ¬ hackbench <:+: f.firstLine := hh
    simp [hackbenchFiles, hh, hin]

theorem entries_le_hits (p : CutProcess) : p.entries ≤ p.hits := by
  unfold entries hits
  obtain ⟨-, hw, -⟩ | ⟨f, hs, -, hw, -⟩ | ⟨f, k, -, -, hw, -⟩ := p.read_cases
  · rw [hw]
    exact Nat.zero_le _
  · rw [hw, hs, Option.toList_some, length_hackbenchFiles_singleton]
    split
    · next hh => exact (count_firstLine f).1 hh
    · exact Nat.zero_le _
  · rw [hw]
    exact Nat.zero_le _

/-- All that is counted of the process is read exactly when it is whole, as far as it is
hackbench. -/
theorem entries_eq_hits_iff : p.entries = p.hits ↔ ∀ f ∈ p.started, f.IsHackbench →
    p.cut = none ∧ Text.count hackbench f.firstLine = 1 := by
  unfold entries hits
  obtain ⟨hs, hw, -⟩ | ⟨f, hs, hcut, hw, -⟩ | ⟨f, k, hs, hcut, hw, -⟩ := p.read_cases
  · rw [hw, hs]
    exact ⟨fun _ f hf => absurd hf (Option.not_mem_none f), fun _ => rfl⟩
  · rw [hw, hs, hcut, Option.toList_some, length_hackbenchFiles_singleton]
    obtain ⟨hpos, hzero⟩ := count_firstLine f
    by_cases hh : f.IsHackbench
    · simp [hh, eq_comm]
    · simp [hh, hzero hh]
  · rw [hw, hs, hcut]
    obtain ⟨hpos, hzero⟩ := count_firstLine f
    by_cases hh : f.IsHackbench
    · have := hpos hh
      simp [hh, hackbenchFiles]
      omega
    · simp [hh, hzero hh, hackbenchFiles]

/-- The process is whole when, also, no number of it is missed. -/
theorem whole_iff : p.Whole ↔ ¬ p.Breaks ∧ p.entries = p.hits := by
  rw [entries_eq_hits_iff]
  obtain ⟨hs, -, hbreaks⟩ | ⟨f, hs, hcut, -, hbreaks⟩ | ⟨f, k, hs, hcut, -, hk, hbreaks⟩ :=
    p.read_cases
  · exact ⟨fun h => ⟨hbreaks, h.hackbench⟩,
      fun h => ⟨h.2, fun f hf => absurd (hs ▸ hf) (Option.not_mem_none f)⟩⟩
  · exact ⟨fun h => ⟨hbreaks, h.hackbench⟩, fun h => ⟨h.2, fun _ _ _ => hcut⟩⟩
  · constructor
    · refine fun h => ⟨fun hb => ?_, h.hackbench⟩
      rcases hbreaks.1 hb with ⟨hh, -⟩ | ⟨hg, -⟩
      · have hnone := (h.hackbench f hs hh).1
        rw [hcut] at hnone
        cases hnone
      · have hnone := h.gzip f hs hg
        rw [hcut] at hnone
        cases hnone
    · refine fun h => ⟨h.2, fun f' hf' hg => ?_⟩
      rw [hs] at hf'
      cases hf'
      exact absurd (hbreaks.2 (.inr ⟨hg, hk⟩)) h.1

/-- Only the first line counts. -/
theorem sum_count_lines (p : CutProcess) :
    (p.lines.map (Text.count hackbench)).sum = p.hits := by
  have hnil : Text.count hackbench [] = 0 := rfl
  have hpath : Text.count hackbench p.process.path = 0 :=
    Text.count_eq_zero (not_hackbench_of_not_mem (p.process.not_mem_path rfl))
  have hfield : ∀ f : Field, Text.count hackbench f.line = 0 :=
    fun f => Text.count_eq_zero f.not_hackbench_line
  unfold lines schedLines hits started
  rw [List.map_cons, List.sum_cons, hpath, Nat.zero_add]
  cases p.process.sched with
  | none => simp
  | some f =>
    cases p.cut with
    | none => simp [SchedFile.linesUpTo, SchedFile.lines, hfield]
    | some k =>
      have hnumber : ∀ i ∈ [2, 3, 4],
          Text.count hackbench (f.lineUpTo k i) = 0 := by
        intro i hi
        rcases Nat.lt_or_ge i k.val with hik | hik
        · rw [SchedFile.lineUpTo_of_lt hik]
          simp only [List.mem_cons, List.not_mem_nil, or_false] at hi
          rcases hi with rfl | rfl | rfl <;> exact hfield _
        · rw [SchedFile.lineUpTo_of_le hik]
          rfl
      have hsum : ((f.linesUpTo (some k)).map (Text.count hackbench)).sum =
          Text.count hackbench (f.lineUpTo k 0) := by
        simp [SchedFile.linesUpTo, hnumber]
      rw [Option.map_some, Option.getD_some, hsum]
      rcases Nat.eq_zero_or_pos k.val with hk | hk
      · obtain rfl : k = 0 := Fin.ext hk
        rfl
      · have hne : k ≠ 0 := fun h => Nat.ne_of_gt hk (congrArg Fin.val h)
        rw [SchedFile.lineUpTo_of_lt hk, if_neg (by simp [hne])]
        rfl

end CutProcess

namespace CutSnapshot
variable {s : CutSnapshot}

/-- The first of the lines after the mark has no `hackbench` in it. -/
theorem sum_count_linesAfterMark {uptime : Line} {ls : List Line} (huptime : 'h' ∉ uptime)
    (hhead : ∀ l ∈ ls.head?, 'h' ∉ l) :
    ((linesAfterMark uptime ls).map (Text.count hackbench)).sum =
      (ls.map (Text.count hackbench)).sum := by
  have hzero : ∀ l : Line, 'h' ∉ l → Text.count hackbench l = 0 :=
    fun l hl => Text.count_eq_zero (not_hackbench_of_not_mem hl)
  cases ls with
  | nil => simp [linesAfterMark, hzero _ huptime]
  | cons l ls =>
    have hl := hhead l rfl
    have hfirst : 'h' ∉ uptime ++ l := fun hmem => (List.mem_append.1 hmem).elim huptime hl
    have hnil : Text.count hackbench [] = 0 := rfl
    simp [linesAfterMark, hzero _ hfirst, hzero _ hl, hnil]

/-- `hackbench` occurs in the first lines. -/
theorem count_body (s : CutSnapshot) :
    Text.count hackbench s.body = (s.processes.map CutProcess.hits).sum := by
  have huptime : 'h' ∉ s.uptimeLine :=
    Snapshot.not_mem_uptimeLine { uptime := s.uptime, idle := s.idle, processes := [] } rfl
  have hhead : ∀ l ∈ (s.processes.flatMap CutProcess.lines).head?, 'h' ∉ l := by
    intro l hl
    obtain ⟨p, rfl⟩ := head?_flatMap_cutLines hl
    exact p.not_mem_path rfl
  have hnewline : '\n' ∉ hackbench := by decide
  rw [body, unlines_linesAfterMark, Text.count_unlines hnewline (by decide),
    sum_count_linesAfterMark huptime hhead]
  induction s.processes with
  | nil => rfl
  | cons p ps ih =>
    rw [List.flatMap_cons, List.map_append, List.sum_append, p.sum_count_lines, List.map_cons,
      List.sum_cons, ih]

/-- The entries that are read. -/
theorem length_hackbenchFiles_whole (s : CutSnapshot) :
    (hackbenchFiles s.whole).length = (s.processes.map CutProcess.entries).sum := by
  unfold whole
  induction s.processes with
  | nil => rfl
  | cons p ps ih =>
    have hfiles : (p :: ps).filterMap CutProcess.whole =
        p.whole.toList ++ ps.filterMap CutProcess.whole := by
      rw [List.filterMap_cons]
      cases p.whole <;> rfl
    rw [hfiles, hackbenchFiles, List.filter_append, List.length_append, List.map_cons,
      List.sum_cons, ← ih]
    rfl

theorem entries_le_five (h : s.Admitted) : (hackbenchFiles s.whole).length ≤ 5 := by
  rw [length_hackbenchFiles_whole, ← h, count_body]
  exact List.sum_le_sum fun p _ => p.entries_le_hits

/-- All five entries are read of a snapshot exactly when its processes are whole. -/
theorem five_entries_iff (h : s.Admitted) :
    (¬ ∃ p ∈ s.processes, p.Breaks) ∧ 5 ≤ (hackbenchFiles s.whole).length ↔
      ∀ p ∈ s.processes, p.Whole := by
  have hle := entries_le_five h
  have hfive : 5 ≤ (hackbenchFiles s.whole).length ↔ ∀ p ∈ s.processes, p.entries = p.hits := by
    rw [← Sums.sum_map_eq_iff_of_le CutProcess.entries_le_hits, ← length_hackbenchFiles_whole,
      ← count_body, h]
    omega
  simp only [hfive, CutProcess.whole_iff, not_exists, not_and, forall_and]

end CutSnapshot

/-! ## The theorem -/

/-- A loop that ends early at some of the elements. -/
theorem mapM_ite {α β : Type} {P : α → Prop} [DecidablePred P] (g : α → β) (l : List α) :
    (l.mapM fun a => if P a then none else some (g a)) =
      if ∃ a ∈ l, P a then none else some (l.map g) := by
  induction l with
  | nil => simp
  | cons a l ih =>
    rw [List.mapM_cons, ih]
    by_cases ha : P a
    · rw [if_pos ha, if_pos (show ∃ b ∈ a :: l, P b from ⟨a, List.mem_cons_self, ha⟩)]
      rfl
    · have hiff : (∃ b ∈ a :: l, P b) ↔ ∃ b ∈ l, P b :=
        (List.exists_mem_cons_iff _ _ _).trans (or_iff_right ha)
      rw [if_neg ha]
      simp only [hiff]
      split <;> rfl

section
variable {F : Type} [Div F] (round : ℚ → F)

/-- The snapshots that are taken are parsed, unless a number is missed in one of them. -/
theorem processed_eq (snapshots : List CutSnapshot) :
    Plotter.processed round (snapshots.flatMap CutSnapshot.text) =
      if ∃ s ∈ admitted snapshots, ∃ p ∈ s.processes, p.Breaks then none
      else some ((admitted snapshots).map (CutSnapshot.parsed round)) := by
  rw [Plotter.processed, timePts_flatMap_cutText, List.filter_map, List.mapM_map]
  simp only [Function.comp_def, parse_cut]
  exact mapM_ite _ _

variable [Sub F] [LT F] [DecidableLT F]

/-- `plotter.py` makes series of hackbench that are as long as the times exactly when, in every
snapshot that it takes, no process of hackbench or gzip has disappeared after its first line was
read, and none has `hackbench` twice in its first line. -/
theorem Plotter.aligned_exactly (snapshots : List CutSnapshot) (h : ∃ s ∈ snapshots, s.Admitted) :
    (∃ series, Plotter.series round (snapshots.flatMap CutSnapshot.text) = some series ∧
        series.Aligned) ↔
      ∀ s ∈ snapshots, s.Admitted → ∀ p ∈ s.processes, p.Whole := by
  have hmem : ∀ s, s ∈ admitted snapshots ↔ s ∈ snapshots ∧ s.Admitted := by
    intro s
    rw [admitted, List.mem_filter, decide_eq_true_eq]
  have hwhole : (∀ s ∈ snapshots, s.Admitted → ∀ p ∈ s.processes, p.Whole) ↔
      (¬ ∃ s ∈ admitted snapshots, ∃ p ∈ s.processes, p.Breaks) ∧
        ∀ p ∈ (admitted snapshots).map (CutSnapshot.parsed round), 5 ≤ p.hackbenchTimes.length := by
    have hfive : ∀ s ∈ admitted snapshots, (∀ p ∈ s.processes, p.Whole) ↔
        (¬ ∃ p ∈ s.processes, p.Breaks) ∧ 5 ≤ (s.parsed round).hackbenchTimes.length := by
      intro s hs
      rw [CutSnapshot.parsed, List.length_map]
      exact (CutSnapshot.five_entries_iff ((hmem s).1 hs).2).symm
    rw [List.forall_mem_map]
    constructor
    · intro hall
      have hs : ∀ s ∈ admitted snapshots, ∀ p ∈ s.processes, p.Whole :=
        fun s hs => hall s ((hmem s).1 hs).1 ((hmem s).1 hs).2
      exact ⟨fun ⟨s, hmem, hbreaks⟩ => ((hfive s hmem).1 (hs s hmem)).1 hbreaks,
        fun s hmem => ((hfive s hmem).1 (hs s hmem)).2⟩
    · rintro ⟨hbreaks, hlen⟩ s hs hadmitted
      have hs := (hmem s).2 ⟨hs, hadmitted⟩
      exact (hfive s hs).2 ⟨fun hb => hbreaks ⟨s, hs, hb⟩, hlen s hs⟩
  rw [hwhole, Plotter.series, processed_eq]
  by_cases hbreaks : ∃ s ∈ admitted snapshots, ∃ p ∈ s.processes, p.Breaks
  · rw [if_pos hbreaks]
    refine ⟨fun ⟨_, hs, _⟩ => ?_, fun ⟨hno, _⟩ => absurd hbreaks hno⟩
    cases hs
  · rw [if_neg hbreaks]
    obtain ⟨s₀, hs₀, hadmitted₀⟩ := h
    obtain ⟨t, ht⟩ : ∃ t, minTime (((admitted snapshots).map (CutSnapshot.parsed round)).map
        Parsed.utime) = some t := by
      cases hne : admitted snapshots with
      | nil => exact absurd ((hmem s₀).2 ⟨hs₀, hadmitted₀⟩) (hne ▸ List.not_mem_nil)
      | cons => exact ⟨_, rfl⟩
    have hlen : ∀ p ∈ (admitted snapshots).map (CutSnapshot.parsed round),
        p.hackbenchTimes.length ≤ 5 := by
      intro p hp
      obtain ⟨s, hs, rfl⟩ := List.mem_map.1 hp
      rw [CutSnapshot.parsed, List.length_map]
      exact CutSnapshot.entries_le_five ((hmem s).1 hs).2
    obtain ⟨series, hseries, hext⟩ := foldlM_record (s := Series.empty) t hlen rfl rfl
    simp only [Option.bind_eq_bind, Option.bind_some, ht, hseries, Option.some.injEq,
      exists_eq_left', hext.aligned_iff, hbreaks, not_false_eq_true, true_and]

end

/-! ## Five processes -/

theorem hackbenchFile_noGzipKey : ∀ f ∈ (seven (some hackbenchFile)).sched, f.NoGzipKey := by
  rintro f hf
  cases hf
  decide

/-- A process of hackbench that may disappear. -/
def hackbenchProcess (cut : Option (Fin 5)) : CutProcess where
  process := seven (some hackbenchFile)
  cut := cut
  noGzipKey := hackbenchFile_noGzipKey

/-- Five processes of hackbench, of which the last may disappear. -/
def fiveHackbench (cut : Option (Fin 5)) : CutSnapshot where
  uptime := oneAndAHalf
  idle := oneAndAHalf
  processes := List.replicate 4 (hackbenchProcess none) ++ [hackbenchProcess cut]

/-- A process of another program that may disappear. -/
def otherProcess (cut : Option (Fin 5)) : CutProcess where
  process := seven (some (sevenOf "cat".toList (by decide) (by decide)))
  cut := cut
  noGzipKey := by
    rintro f hf
    cases hf
    decide

/-- A process of `gzip`. -/
def gzipProcess : CutProcess where
  process := seven (some gzipFile)
  cut := none
  noGzipKey := by
    rintro f hf
    cases hf
    decide

/-- Five processes of hackbench and `gzip`, and another one that may disappear. -/
def fiveAndOthers (cut : Option (Fin 5)) : CutSnapshot :=
  { fiveHackbench none with
    processes := otherProcess cut :: (fiveHackbench none).processes ++ [gzipProcess] }

/-- Four processes of hackbench, of which the last may disappear. -/
def fourHackbench (cut : Option (Fin 5)) : CutSnapshot :=
  { fiveHackbench none with
    processes := List.replicate 3 (hackbenchProcess none) ++ [hackbenchProcess cut] }

/-- Of three snapshots two are taken, in which no number is lost, and the series are as long as the
times. -/
theorem Plotter.aligned_threeSnapshots : ∃ series,
    Plotter.series (id : ℚ → ℚ) ([fourHackbench (some 1), fiveHackbench none,
      fiveAndOthers (some 2)].flatMap CutSnapshot.text) = some series ∧ series.Aligned :=
  (Plotter.aligned_exactly id [fourHackbench (some 1), fiveHackbench none, fiveAndOthers (some 2)]
    (by decide +kernel)).2 (by decide +kernel)

/-- The last process disappears when its first line has been read: the last series has got no value,
and there is one time. -/
theorem Plotter.last_series_short : ¬ ∀ snapshots : List CutSnapshot,
    (∃ s ∈ snapshots, s.Admitted) →
      ∃ series, Plotter.series (id : ℚ → ℚ) (snapshots.flatMap CutSnapshot.text) = some series ∧
        series.Aligned := by
  intro hall
  obtain ⟨series, hseries, hsum, -⟩ := hall [fiveHackbench (some 1)]
    ⟨fiveHackbench (some 1), List.mem_cons_self, by decide +kernel⟩
  have hlen : (Plotter.series (id : ℚ → ℚ) ([fiveHackbench (some 1)].flatMap CutSnapshot.text)).map
      (fun s => (s.utimeList.length, s.hackbenchSumExecList.map List.length)) =
        some (1, [1, 1, 1, 1, 0]) := by decide +kernel
  rw [hseries, Option.map_some, Option.some.injEq, Prod.mk.injEq] at hlen
  rw [hlen.1, hlen.2] at hsum
  cases hsum

end TimeTracker
