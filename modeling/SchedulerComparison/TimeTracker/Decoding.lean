import SchedulerComparison.TimeTracker.Snapshots

/-!
# Reading the snapshots back

`retrieve_data` and `parse_snapshot` have no common description of the format: the path of the first
process is on the line of the uptime, an unreadable process leaves its path alone, and the numbers
are found by their distance from the first line of a `sched` file. `parse_body` shows that the
numbers of a process are read from its own lines all the same, for any mix of readable and
unreadable processes and any word in the place of `gzip`; it is an induction over the processes with
one lemma for each kind of line (`scan_path`, `scan_fields`, `scan_sched`).

`Plotter.decodes` reads `plotter.py` off it. The word of `periodic_plotter.py` is longer than the
four characters that it is compared with, so that the process it looks for is never found
(`PeriodicPlotter.never_decodes`).
-/

namespace TimeTracker

section
variable {F : Type} (round : ℚ → F)

/-! ## What a snapshot says -/

/-- The numbers of a process. -/
def SchedFile.triple [Div F] (f : SchedFile) : F × F × F :=
  (round f.execStart.number.value, round f.vruntime.number.value,
    round f.sumExec.number.value / round 1000)

/-- The `sched` files that can be opened, in directory order. -/
def Snapshot.readable (s : Snapshot) : List SchedFile := s.processes.filterMap Process.sched

/-- The files whose first line contains `hackbench`. -/
def hackbenchFiles (fs : List SchedFile) : List SchedFile :=
  fs.filter fun f => hackbench <:+: f.firstLine

/-- The files that are recognised by a word. -/
def filesOf (word : Line) (fs : List SchedFile) : List SchedFile :=
  fs.filter fun f => ¬ hackbench <:+: f.firstLine ∧ word = f.firstLine.take 4

/-- None of the three lines with numbers is taken for the first line of the process that `word`
recognises. -/
def SchedFile.Skips (word : Line) (f : SchedFile) : Prop :=
  word ≠ f.execStart.line.take 4 ∧ word ≠ f.vruntime.line.take 4 ∧ word ≠ f.sumExec.line.take 4

/-! ## Numbers -/

theorem float_text (d : Text.Decimal) : float round d.text = some (round d.value) := by
  have h := d.numeral_text 0
  rw [List.replicate_zero, List.nil_append] at h
  rw [float, h, Option.map_some]

theorem Field.splitOn_line (f : Field) : f.line.splitOn ':' = [f.key, f.text] := by
  have htext : ':' ∉ f.text := f.not_mem_text rfl
  rw [line, List.splitOn_append_cons_self_of_not_mem f.colon_not_mem,
    List.splitOn_eq_singleton htext]

/-- The number of a line is read back. -/
theorem field_line (f : Field) : field round f.line = some (round f.number.value) := by
  rw [field, f.splitOn_line]
  show float round f.text = _
  rw [float, Field.text, f.number.numeral_text, Option.map_some]

variable [Div F]

/-- The numbers of a process are read from the three lines after its first. -/
theorem triple_lines (f : SchedFile) (rest : List Line) :
    triple round (f.execStart.line :: f.vruntime.line :: f.sumExec.line :: rest) =
      some (f.triple round) := by
  simp only [triple, List.getElem?_cons_zero, List.getElem?_cons_succ, Option.bind_eq_bind,
    Option.bind_some, field_line]
  rfl

/-! ## One line -/

variable {word : Line} {hackbenchTimes : List (F × F × F)} {gzip : Option (F × F × F)}
  {rest : List Line}

/-- A line that is no first line is passed over. -/
theorem scan_other {line : Line} (hh : ¬ hackbench <:+: line) (hw : word ≠ line.take 4) :
    scan round word (line :: rest) hackbenchTimes gzip =
      scan round word rest hackbenchTimes gzip := by
  rw [scan, if_neg hh, if_neg hw]

/-- A line without an `h` does not contain `hackbench`. -/
theorem not_hackbench_of_not_mem {line : Line} (h : 'h' ∉ line) : ¬ hackbench <:+: line :=
  fun hin => h (hin.subset List.mem_cons_self)

/-- The path of a process. -/
theorem scan_path (p : Process) (hword : word ≠ "\"/pr".toList) :
    scan round word (p.path :: rest) hackbenchTimes gzip =
      scan round word rest hackbenchTimes gzip :=
  scan_other round (not_hackbench_of_not_mem (p.not_mem_path rfl)) hword

theorem Field.not_hackbench_line (f : Field) : ¬ hackbench <:+: f.line := by
  intro h
  rcases Text.infix_of_append_cons (show ':' ∉ hackbench by decide) h with h | h
  · exact f.not_hackbench h
  · have hh : 'h' ∉ f.text := f.not_mem_text rfl
    exact not_hackbench_of_not_mem hh h

/-- The lines with numbers. -/
theorem scan_fields {f : SchedFile} (hf : f.Skips word) :
    scan round word (f.execStart.line :: f.vruntime.line :: f.sumExec.line :: rest) hackbenchTimes
        gzip =
      scan round word rest hackbenchTimes gzip := by
  rw [scan_other round f.execStart.not_hackbench_line hf.1,
    scan_other round f.vruntime.not_hackbench_line hf.2.1,
    scan_other round f.sumExec.not_hackbench_line hf.2.2]

/-! ## All processes -/

/-- The lines of a `sched` file. -/
theorem scan_sched {f : SchedFile} (hf : f.Skips word) :
    scan round word (f.lines ++ rest) hackbenchTimes gzip =
      scan round word rest (hackbenchTimes ++ (hackbenchFiles [f]).map (SchedFile.triple round))
        (((filesOf word [f]).getLast?.map (SchedFile.triple round)).or gzip) := by
  have hlines : f.lines ++ rest = f.firstLine :: f.execStart.line :: f.vruntime.line ::
      f.sumExec.line :: rest := rfl
  rw [hlines, scan]
  by_cases hh : hackbench <:+: f.firstLine
  · -- the next line has a colon
    rw [if_pos hh, List.getElem?_cons_zero, triple_lines]
    simp only [Option.bind_eq_bind, Option.bind_some, f.execStart.splitOn_line, List.length_cons,
      List.length_nil, Nat.lt_irrefl, if_false]
    rw [scan_fields round hf]
    simp [hackbenchFiles, filesOf, hh]
  · rw [if_neg hh, triple_lines]
    by_cases hw : word = f.firstLine.take 4
    · rw [if_pos hw]
      simp only [Option.bind_eq_bind, Option.bind_some]
      rw [scan_fields round hf]
      simp [hackbenchFiles, filesOf, hh, ← hw]
    · rw [if_neg hw, scan_fields round hf]
      simp [hackbenchFiles, filesOf, hh, hw]

/-- The lines of the processes. -/
theorem scan_processes (ps : List Process) (hword : word ≠ "\"/pr".toList)
    (hskips : ∀ f ∈ ps.filterMap Process.sched, f.Skips word) :
    scan round word (ps.flatMap Process.lines ++ rest) hackbenchTimes gzip =
      scan round word rest
        (hackbenchTimes ++
          (hackbenchFiles (ps.filterMap Process.sched)).map (SchedFile.triple round))
        (((filesOf word (ps.filterMap Process.sched)).getLast?.map (SchedFile.triple round)).or
          gzip) := by
  induction ps generalizing hackbenchTimes gzip with
  | nil => simp [hackbenchFiles, filesOf]
  | cons p ps ih =>
    rw [List.flatMap_cons, List.append_assoc, Process.lines, List.cons_append,
      scan_path round p hword, Process.schedLines]
    cases hp : p.sched with
    | none =>
      rw [List.filterMap_cons_none hp] at hskips ⊢
      exact ih hskips
    | some f =>
      rw [List.filterMap_cons_some hp] at hskips ⊢
      rw [Option.map_some, Option.getD_some, scan_sched round (hskips f List.mem_cons_self),
        ih fun f' hf' => hskips f' (List.mem_cons_of_mem f hf')]
      have hhackbench : hackbenchFiles (f :: ps.filterMap Process.sched) =
          hackbenchFiles [f] ++ hackbenchFiles (ps.filterMap Process.sched) :=
        List.filter_append [f] _
      have hfiles : filesOf word (f :: ps.filterMap Process.sched) =
          filesOf word [f] ++ filesOf word (ps.filterMap Process.sched) := List.filter_append [f] _
      rw [hhackbench, hfiles, List.map_append, List.append_assoc, List.getLast?_append,
        Option.map_or, Option.or_assoc]

/-- The lines after the mark are scanned from the second on; the first is one that would be passed
over. -/
theorem parse_lines (uptime idle : Text.Decimal) {ls : List Line} (h : ∀ l ∈ ls, '\n' ∉ l)
    (hhead : ∀ l ∈ ls.head?, ¬ hackbench <:+: l ∧ word ≠ l.take 4) (hnil : word ≠ []) :
    parseSnapshotWith round word
        (uptime.text ++ ' ' :: idle.text ++ (Text.unlines '\n' ls ++ newline)) =
      (scan round word (ls ++ [[], []]) [] none).map fun read =>
        { utime := round uptime.value, hackbenchTimes := read.1, gzip := read.2 } := by
  have hline : '\n' ∉ uptime.text ++ ' ' :: idle.text :=
    Snapshot.not_mem_uptimeLine { uptime, idle, processes := [] } rfl
  have huptime : ∀ t, (uptime.text ++ ' ' :: t).splitOn ' ' = uptime.text :: t.splitOn ' ' :=
    List.splitOn_append_cons_self_of_not_mem (uptime.not_mem_text rfl)
  have hempty : ∀ (ls : List (F × F × F)) (g : Option (F × F × F)) (r : List Line),
      scan round word ([] :: r) ls g = scan round word r ls g := fun ls g r =>
    scan_other round (not_hackbench_of_not_mem List.not_mem_nil) hnil
  rw [parseSnapshotWith, splitOn_linesAfterMark hline h]
  cases ls with
  | nil =>
    simp only [linesAfterMark, List.cons_append, List.nil_append, List.getElem?_cons_zero,
      Option.bind_eq_bind, Option.bind_some, huptime, float_text, List.drop_succ_cons,
      List.drop_zero, hempty]
    rfl
  | cons l ls =>
    obtain ⟨hl, hw⟩ := hhead l rfl
    simp only [linesAfterMark, List.cons_append, List.append_assoc, List.nil_append,
      List.getElem?_cons_zero, Option.bind_eq_bind, Option.bind_some, huptime, float_text,
      List.drop_succ_cons, List.drop_zero, scan_other round hl hw]
    cases scan round word (ls ++ [[], []]) [] none <;> rfl

/-- What `parse_snapshot` returns for a snapshot, with any word in the place of `gzip`. -/
theorem parse_body (s : Snapshot) (hpath : word ≠ "\"/pr".toList) (hnil : word ≠ [])
    (hskips : ∀ f ∈ s.readable, f.Skips word) :
    parseSnapshotWith round word s.body = some
      { utime := round s.uptime.value
        hackbenchTimes := (hackbenchFiles s.readable).map (SchedFile.triple round)
        gzip := (filesOf word s.readable).getLast?.map (SchedFile.triple round) } := by
  have hempty : ∀ (ls : List (F × F × F)) (g : Option (F × F × F)),
      scan round word [[], []] ls g = some (ls, g) := by
    intro ls g
    rw [scan_other round (not_hackbench_of_not_mem List.not_mem_nil) hnil,
      scan_other round (not_hackbench_of_not_mem List.not_mem_nil) hnil, scan]
  have hlines : ∀ l ∈ s.processes.flatMap Process.lines, '\n' ∉ l := by
    intro l hl
    obtain ⟨p, -, hl⟩ := List.mem_flatMap.1 hl
    exact p.newline_not_mem l hl
  have hhead : ∀ l ∈ (s.processes.flatMap Process.lines).head?,
      ¬ hackbench <:+: l ∧ word ≠ l.take 4 := by
    intro l hl
    obtain ⟨p, rfl⟩ := head?_flatMap_lines hl
    exact ⟨not_hackbench_of_not_mem (p.not_mem_path rfl), hpath⟩
  have hparse := parse_lines round s.uptime s.idle hlines hhead hnil
  rw [scan_processes round s.processes hpath hskips, hempty, List.nil_append, Option.or_none]
    at hparse
  exact hparse

/-- The pieces of the log are what follows the marks. -/
theorem timePts_flatMap {bodies : List Line} (h : ∀ b ∈ bodies, ¬ timeMark <:+: b) :
    timePts (bodies.flatMap (timeMark ++ ·)) = bodies := by
  have hsplit : Text.split timeMark ([] ++ bodies.flatMap (timeMark ++ ·)) = [] :: bodies :=
    Text.split_flatMap '[' "TIME] ".toList (by decide) (by decide) h
  rw [timePts, ← List.nil_append (List.flatMap _ _), hsplit]
  rfl

/-- The pieces of the log are the bodies of its snapshots. -/
theorem timePts_flatMap_text (snapshots : List Snapshot) :
    timePts (snapshots.flatMap Snapshot.text) = snapshots.map Snapshot.body := by
  have htext : snapshots.flatMap Snapshot.text =
      (snapshots.map Snapshot.body).flatMap (timeMark ++ ·) := by
    rw [List.flatMap_map]
    exact List.flatMap_congr fun s _ => s.text_eq
  rw [htext]
  refine timePts_flatMap fun b hb => ?_
  obtain ⟨s, -, rfl⟩ := List.mem_map.1 hb
  exact s.timeMark_not_infix

/-! ## `plotter.py` -/

/-- No key starts with `gzip`. -/
def SchedFile.NoGzipKey (f : SchedFile) : Prop :=
  ¬ "gzip".toList <+: f.execStart.key ∧ ¬ "gzip".toList <+: f.vruntime.key ∧
    ¬ "gzip".toList <+: f.sumExec.key

instance (f : SchedFile) : Decidable f.NoGzipKey := inferInstanceAs (Decidable (_ ∧ _ ∧ _))

/-- The files of the processes whose name starts with `gzip` and which are not taken for
hackbench. -/
def gzipFiles (fs : List SchedFile) : List SchedFile :=
  fs.filter fun f => "gzip".toList <+: f.comm ∧ ¬ hackbench <:+: f.firstLine

/-- A text starts with `gzip` when its part before a character that is not in `gzip` does. -/
theorem gzip_eq_take_iff {a b : Line} {c : Char} (hc : c ∉ "gzip".toList) :
    "gzip".toList = (a ++ c :: b).take 4 ↔ "gzip".toList <+: a := by
  refine ⟨fun h => Text.prefix_of_append_cons hc (h ▸ List.take_prefix 4 _), fun h => ?_⟩
  exact List.prefix_iff_eq_take.1 (h.trans (List.prefix_append a _))

theorem SchedFile.NoGzipKey.skips {f : SchedFile} (h : f.NoGzipKey) : f.Skips "gzip".toList :=
  ⟨fun heq => h.1 ((gzip_eq_take_iff (by decide)).1 heq),
    fun heq => h.2.1 ((gzip_eq_take_iff (by decide)).1 heq),
    fun heq => h.2.2 ((gzip_eq_take_iff (by decide)).1 heq)⟩

theorem filesOf_gzip (fs : List SchedFile) : filesOf "gzip".toList fs = gzipFiles fs := by
  refine List.filter_congr fun f _ => decide_eq_decide.2 ?_
  have hfirst : f.firstLine = f.comm ++ ' ' :: ('(' :: f.pid ++ ", #threads: ".toList ++
      f.threads ++ [')']) := by simp [SchedFile.firstLine]
  rw [and_comm, hfirst, gzip_eq_take_iff (by decide)]

/-- `plotter.py` reads back what `sched_tracker` writes: for each snapshot the uptime, the numbers
of the hackbench processes in order, and those of the last gzip process that is not one of
them. -/
theorem Plotter.decodes (snapshots : List Snapshot)
    (hkeys : ∀ s ∈ snapshots, ∀ f ∈ s.readable, f.NoGzipKey) :
    (timePts (snapshots.flatMap Snapshot.text)).map (Plotter.parseSnapshot round) =
      snapshots.map fun s => some
        { utime := round s.uptime.value
          hackbenchTimes := (hackbenchFiles s.readable).map (SchedFile.triple round)
          gzip := (gzipFiles s.readable).getLast?.map (SchedFile.triple round) } := by
  rw [timePts_flatMap_text, List.map_map]
  refine List.map_congr_left fun s hs => ?_
  rw [← filesOf_gzip]
  exact parse_body round s (by decide) (by decide) fun f hf => (hkeys s hs f hf).skips

/-! ## `periodic_plotter.py` -/

/-- The files of the processes whose first line starts with `toy_periodic` and which are not taken
for hackbench. -/
def sleeperFiles (fs : List SchedFile) : List SchedFile :=
  fs.filter fun f => "toy_periodic".toList <+: f.firstLine ∧ ¬ hackbench <:+: f.firstLine

/-- `periodic_plotter.py` reads back the snapshot: the numbers of the hackbench processes, and those
of the last sleeper. -/
def PeriodicPlotter.Decodes (s : Snapshot) : Prop :=
  ∃ r, (timePts s.text).map (PeriodicPlotter.parseSnapshot round) = [some r] ∧
    r.hackbenchTimes = (hackbenchFiles s.readable).map (SchedFile.triple round) ∧
    r.gzip = (sleeperFiles s.readable).getLast?.map (SchedFile.triple round)

/-- Twelve characters are never four. -/
theorem toy_periodic_ne_take (line : Line) : "toy_periodic".toList ≠ line.take 4 := by
  intro h
  have hlen : "toy_periodic".toList.length ≤ 4 := h ▸ List.length_take_le 4 line
  exact absurd hlen (by decide)

/-- The hackbench processes are read back, and no sleeper is. -/
theorem PeriodicPlotter.parses (s : Snapshot) :
    (timePts s.text).map (PeriodicPlotter.parseSnapshot round) = [some
      { utime := round s.uptime.value
        hackbenchTimes := (hackbenchFiles s.readable).map (SchedFile.triple round)
        gzip := none }] := by
  have hpieces : timePts s.text = [s.body] := by
    have h := timePts_flatMap_text [s]
    rwa [List.flatMap_singleton] at h
  have hfiles : filesOf "toy_periodic".toList s.readable = [] :=
    List.filter_eq_nil_iff.2 fun f _ h => toy_periodic_ne_take f.firstLine (of_decide_eq_true h).2
  have hparse := parse_body round s (show "toy_periodic".toList ≠ "\"/pr".toList by decide)
    (by decide) fun f _ => ⟨toy_periodic_ne_take _, toy_periodic_ne_take _, toy_periodic_ne_take _⟩
  rw [hfiles] at hparse
  rw [hpieces, List.map_singleton]
  exact congrArg (fun r => [r]) hparse

/-- A sleeper is never read back. -/
theorem PeriodicPlotter.never_decodes (s : Snapshot) (hs : sleeperFiles s.readable ≠ []) :
    ¬ PeriodicPlotter.Decodes round s := by
  rintro ⟨r, hr, -, hgzip⟩
  rw [PeriodicPlotter.parses, List.singleton_inj, Option.some.injEq] at hr
  rw [← hr, List.getLast?_eq_some_getLast hs] at hgzip
  cases hgzip

end

/-! ## Three processes -/

/-- The number `1.5`. -/
def oneAndAHalf : Text.Decimal where
  neg := false
  whole := ['1']
  frac := some ['5']
  whole_ne_nil := by decide
  whole_digits := by simp
  frac_digits := by simp

/-- The line `se : 1.5`. -/
def seField : Field where
  key := "se ".toList
  pad := 1
  number := oneAndAHalf
  printable := by decide
  colon_not_mem := by decide
  not_hackbench := by decide
  not_timeMark := by decide

/-- A `sched` file of five lines, of process 7. -/
def sevenOf (comm : Line) (hcomm : Printable comm)
    (hmark : ¬ timeMark <:+:
      comm ++ " (".toList ++ ['7'] ++ ", #threads: ".toList ++ ['1'] ++ [')']) :
    SchedFile where
  comm := comm
  pid := ['7']
  threads := ['1']
  second := "-----".toList
  execStart := seField
  vruntime := seField
  sumExec := seField
  more := none
  comm_printable := hcomm
  pid_digits := by simp
  threads_digits := by simp
  second_printable := by decide
  not_timeMark := hmark

/-- Process 7, with a `sched` file or without. -/
def seven (sched : Option SchedFile) : Process where
  pid := ['7']
  sched := sched
  pid_ne_nil := by decide
  pid_digits := by simp

/-- A snapshot of processes at the uptime `1.5`. -/
def snapshotOf (processes : List Process) : Snapshot where
  uptime := oneAndAHalf
  idle := oneAndAHalf
  processes := processes

/-- The file of a process named `gzip`. -/
def gzipFile : SchedFile := sevenOf "gzip".toList (by decide) (by decide)

/-- A file of hackbench. -/
def hackbenchFile : SchedFile := sevenOf hackbench (by decide) (by decide)

/-- An unreadable process, and one named `gzip`. -/
def gzipSnapshot : Snapshot := snapshotOf [seven none, seven (some gzipFile)]

/-- A process named `gziphackbench`. -/
def gziphackbenchSnapshot : Snapshot :=
  snapshotOf [seven (some (sevenOf "gziphackbench".toList (by decide) (by decide)))]

/-- A process named `toy_periodic`. -/
def sleeperSnapshot : Snapshot :=
  snapshotOf [seven (some (sevenOf "toy_periodic".toList (by decide) (by decide)))]

/-- The number `20.25`. -/
def twentyAndAQuarter : Text.Decimal where
  neg := false
  whole := ['2', '0']
  frac := some ['2', '5']
  whole_ne_nil := by decide
  whole_digits := by simp
  frac_digits := by simp

/-- A process of one digit, with a `sched` file of which it runs for `20.25` ms. -/
def longer (digit : Char) (hdigit : digit.isDigit = true) (f : SchedFile)
    (hmark : ¬ timeMark <:+:
      f.comm ++ " (".toList ++ [digit] ++ ", #threads: ".toList ++ f.threads ++ [')']) :
    Process where
  pid := [digit]
  sched := some { f with
    pid := [digit]
    sumExec := { f.sumExec with number := twentyAndAQuarter }
    pid_digits := by simpa using hdigit
    not_timeMark := hmark }
  pid_ne_nil := List.cons_ne_nil _ _
  pid_digits := by simpa using hdigit

/-- Two processes named `gzip` and one of hackbench at the uptime `20.25`. -/
def laterSnapshot : Snapshot where
  uptime := twentyAndAQuarter
  idle := oneAndAHalf
  processes :=
    [longer '5' (by decide) gzipFile (by decide), seven (some gzipFile),
      longer '8' (by decide) hackbenchFile (by decide)]

/-- Two snapshots are read back: an unreadable process and `gzip`, and then two named `gzip` and one
of hackbench. -/
theorem Plotter.decodes_twoSnapshots :
    (timePts ([gzipSnapshot, laterSnapshot].flatMap Snapshot.text)).map
        (Plotter.parseSnapshot (id : ℚ → ℚ)) =
      [some { utime := 3 / 2, hackbenchTimes := [], gzip := some (3 / 2, 3 / 2, 3 / 2000) },
        some
          { utime := 81 / 4
            hackbenchTimes := [(3 / 2, 3 / 2, 81 / 4000)]
            gzip := some (3 / 2, 3 / 2, 3 / 2000) }] := by
  refine (Plotter.decodes id [gzipSnapshot, laterSnapshot] ?_).trans (by decide +kernel)
  decide +kernel

/-- `gziphackbench` is read as a hackbench process, and not as the last one whose name starts with
`gzip`. -/
theorem Plotter.gziphackbench_not_gzip :
    (∀ f ∈ gziphackbenchSnapshot.readable, f.NoGzipKey) ∧
      (timePts gziphackbenchSnapshot.text).map (Plotter.parseSnapshot (id : ℚ → ℚ)) ≠
        [some
          { utime := gziphackbenchSnapshot.uptime.value
            hackbenchTimes := (hackbenchFiles gziphackbenchSnapshot.readable).map
              (SchedFile.triple id)
            gzip := (gziphackbenchSnapshot.readable.filter
              fun f => "gzip".toList <+: f.comm).getLast?.map (SchedFile.triple id) }] := by
  decide +kernel

/-- The sleeper of a snapshot with one is not read back. -/
theorem PeriodicPlotter.never_decodes_sleeperSnapshot :
    sleeperFiles sleeperSnapshot.readable ≠ [] ∧
      ¬ PeriodicPlotter.Decodes (id : ℚ → ℚ) sleeperSnapshot := by
  have hs : sleeperFiles sleeperSnapshot.readable ≠ [] := by decide +kernel
  exact ⟨hs, PeriodicPlotter.never_decodes id sleeperSnapshot hs⟩

/-- `parse_snapshot` returns no sleeper for it, where its numbers are `1.5`, `1.5` and `0.0015`. -/
theorem PeriodicPlotter.toy_periodic_lost :
    (timePts sleeperSnapshot.text).map (PeriodicPlotter.parseSnapshot (id : ℚ → ℚ)) =
        [some { utime := 3 / 2, hackbenchTimes := [], gzip := none }] ∧
      (sleeperFiles sleeperSnapshot.readable).getLast?.map (SchedFile.triple id) =
        some ((3 / 2, 3 / 2, 3 / 2000) : ℚ × ℚ × ℚ) ∧
      ¬ PeriodicPlotter.Decodes (id : ℚ → ℚ) sleeperSnapshot := by
  have hparse : (timePts sleeperSnapshot.text).map
      (PeriodicPlotter.parseSnapshot (id : ℚ → ℚ)) =
        [some { utime := 3 / 2, hackbenchTimes := [], gzip := none }] := by decide +kernel
  have hsleeper : (sleeperFiles sleeperSnapshot.readable).getLast?.map (SchedFile.triple id) =
      some ((3 / 2, 3 / 2, 3 / 2000) : ℚ × ℚ × ℚ) := by decide +kernel
  refine ⟨hparse, hsleeper, ?_⟩
  rintro ⟨r, hr, -, hgzip⟩
  rw [hparse, List.singleton_inj, Option.some.injEq] at hr
  rw [hsleeper, ← hr] at hgzip
  cases hgzip

end TimeTracker
