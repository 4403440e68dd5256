import SchedulerComparison.TimeTracker.Decoding

/-!
# Processes that disappear

When a process disappears, its `sched` file ends after any of its lines, and `retrieve_data` writes
empty lines for those that are missing. `parse_cut` is what `parse_snapshot` makes of them: the
entry of hackbench is passed over when it has lost all of its numbers, and otherwise the number that
is missing raises an IndexError, as it does for gzip.
-/

namespace TimeTracker

/-! ## Files that end early -/

namespace SchedFile

/-- The first five lines of the file. -/
def fiveLines (f : SchedFile) : List Line :=
  [f.firstLine, f.second, f.execStart.line, f.vruntime.line, f.sumExec.line]

/-- The content of the file, if it ends after `cut` lines. -/
def contentUpTo (f : SchedFile) : Option (Fin 5) → List Char
  | none => f.content
  | some k => Text.unlines '\n' (f.fiveLines.take k)

/-- Line `i` of the file, or an empty line if the file has ended. -/
def lineUpTo (f : SchedFile) (k i : Nat) : Line := ((f.fiveLines.take k)[i]?).getD []

/-- The lines that `retrieve_data` writes of the file. -/
def linesUpTo (f : SchedFile) : Option (Fin 5) → List Line
  | none => f.lines
  | some k => [f.lineUpTo k 0, f.lineUpTo k 2, f.lineUpTo k 3, f.lineUpTo k 4]

/-- The first line is that of hackbench. -/
def IsHackbench (f : SchedFile) : Prop := hackbench <:+: f.firstLine

/-- The first line is that of gzip. -/
def IsGzip (f : SchedFile) : Prop :=
  ¬ f.IsHackbench ∧ "gzip".toList = f.firstLine.take 4

instance (f : SchedFile) : Decidable f.IsHackbench := inferInstanceAs (Decidable (_ <:+: _))

instance (f : SchedFile) : Decidable f.IsGzip := inferInstanceAs (Decidable (_ ∧ _))

/-- A number that `parse_snapshot` reads is missing: any number of gzip, or one of hackbench whose
first number is there. -/
def Breaks (f : SchedFile) (k : Fin 5) : Prop := f.IsHackbench ∧ 3 ≤ k ∨ f.IsGzip ∧ 1 ≤ k

instance (f : SchedFile) (k : Fin 5) : Decidable (f.Breaks k) :=
  inferInstanceAs (Decidable (_ ∨ _))

end SchedFile

/-- A process that may disappear while its `sched` file is read: the file then ends after `cut`
lines. -/
structure CutProcess where
  process : Process
  cut : Option (Fin 5)
  noGzipKey : ∀ f ∈ process.sched, f.NoGzipKey

namespace CutProcess

/-- What the directory iterator finds. -/
def entry (p : CutProcess) : DirEntry where
  filename := p.process.pid
  sched := p.process.sched.map (·.contentUpTo p.cut)

/-- The lines that `retrieve_data` writes of the file. -/
def schedLines (p : CutProcess) : List Line := (p.process.sched.map (·.linesUpTo p.cut)).getD []

/-- The lines that `retrieve_data` writes of the process. -/
def lines (p : CutProcess) : List Line := p.process.path :: p.schedLines

/-- The file, if its first line is read. -/
def started (p : CutProcess) : Option SchedFile := if p.cut = some 0 then none else p.process.sched

/-- The file, if all of it is read. -/
def whole (p : CutProcess) : Option SchedFile := if p.cut = none then p.process.sched else none

/-- `parse_snapshot` misses a number of the process. -/
def Breaks (p : CutProcess) : Prop := ∃ f ∈ p.process.sched, ∃ k ∈ p.cut, f.Breaks k

instance (p : CutProcess) : Decidable p.Breaks :=
  inferInstanceAs (Decidable (∃ f ∈ p.process.sched, ∃ k ∈ p.cut, f.Breaks k))

end CutProcess

/-- A snapshot of `/proc` in which processes may disappear. -/
structure CutSnapshot where
  uptime : Text.Decimal
  idle : Text.Decimal
  processes : List CutProcess

namespace CutSnapshot

/-- The line of `/proc/uptime`. -/
def uptimeLine (s : CutSnapshot) : Line := s.uptime.text ++ ' ' :: s.idle.text

/-- What `retrieve_data` writes of the snapshot. -/
def text (s : CutSnapshot) : List Char :=
  retrieveData (some (s.uptimeLine ++ newline)) (s.processes.map CutProcess.entry)

/-- The text after the mark. -/
def body (s : CutSnapshot) : List Char :=
  s.uptimeLine ++ (Text.unlines '\n' (s.processes.flatMap CutProcess.lines) ++ newline)

/-- The files that are read to the end, in directory order. -/
def whole (s : CutSnapshot) : List SchedFile := s.processes.filterMap CutProcess.whole

end CutSnapshot

/-! ## What is written -/

/-- The lines that are left to read in a stream are `ls`. After the last one a read leaves the line
as it was, which is empty by then. -/
structure IFStream.Reads (s : IFStream) (line : Line) (ls : List Line) : Prop where
  isOpen : s.isOpen = true
  no_newline : ∀ l ∈ ls, '\n' ∉ l
  rest : s.good = true ∧ s.rest = Text.unlines '\n' ls ∨ s.good = false ∧ ls = [] ∧ line = []

/-- A read gives the next line, or an empty one. -/
theorem IFStream.Reads.getline {s : IFStream} {line : Line} {ls : List Line}
    (h : s.Reads line ls) :
    ∃ s', s.getline line = (s', ls.head?.getD []) ∧ s'.Reads (ls.head?.getD []) ls.tail := by
  obtain ⟨isOpen, rest, good⟩ := s
  obtain ⟨hopen, hnewline, ⟨hgood, hrest⟩ | ⟨hgood, rfl, rfl⟩⟩ := h
  · obtain rfl : isOpen = true := hopen
    obtain rfl : good = true := hgood
    obtain rfl : rest = Text.unlines '\n' ls := hrest
    cases ls with
    | nil =>
      exact ⟨_, getline_end [] line List.not_mem_nil, rfl, hnewline, .inr ⟨rfl, rfl, rfl⟩⟩
    | cons l ls =>
      rw [Text.unlines_cons]
      exact ⟨_, getline_newline l _ line (hnewline l List.mem_cons_self), rfl,
        fun l' hl' => hnewline l' (List.mem_cons_of_mem l hl'), .inl ⟨rfl, rfl⟩⟩
  · obtain rfl : good = false := hgood
    exact ⟨_, rfl, hopen, hnewline, .inr ⟨rfl, rfl, rfl⟩⟩

theorem SchedFile.newline_not_mem_fiveLines (f : SchedFile) : ∀ l ∈ f.fiveLines, '\n' ∉ l := by
  intro l hl
  simp only [fiveLines, List.mem_cons, List.not_mem_nil, or_false] at hl
  rcases hl with rfl | rfl | rfl | rfl | rfl
  · exact f.newline_not_mem
  · exact f.second_printable.newline_not_mem
  · exact f.execStart.newline_not_mem
  · exact f.vruntime.newline_not_mem
  · exact f.sumExec.newline_not_mem

/-- The lines that are there are written, and empty lines for the others. -/
theorem CutProcess.writeProcess_eq (p : CutProcess) :
    writeProcess p.entry = Text.unlines '\n' p.lines := by
  cases hcut : p.cut with
  | none =>
    have hentry : p.entry = p.process.entry := by
      rw [entry, hcut]
      rfl
    have hlines : p.lines = p.process.lines := by
      rw [lines, schedLines, hcut]
      rfl
    rw [hentry, hlines, p.process.writeProcess_eq]
  | some k =>
    unfold writeProcess lines schedLines entry
    dsimp only
    rw [p.process.quoted_path, hcut]
    cases p.process.sched with
    | none => rfl
    | some f =>
      have h : (IFStream.open (some (f.contentUpTo (some k)))).Reads [] (f.fiveLines.take k) :=
        ⟨rfl, fun l hl => f.newline_not_mem_fiveLines l (List.mem_of_mem_take hl), .inl ⟨rfl, rfl⟩⟩
      obtain ⟨s₁, he₁, h₁⟩ := h.getline
      obtain ⟨s₂, he₂, h₂⟩ := h₁.getline
      obtain ⟨s₃, he₃, h₃⟩ := h₂.getline
      obtain ⟨s₄, he₄, h₄⟩ := h₃.getline
      obtain ⟨s₅, he₅, -⟩ := h₄.getline
      simp only [Option.map_some, Option.getD_some, h.isOpen, he₁, h₁.isOpen, he₂, h₂.isOpen, he₃,
        h₃.isOpen, he₄, h₄.isOpen, he₅]
      simp only [List.head?_eq_getElem?, List.getElem?_tail]
      simp [newline, SchedFile.linesUpTo, SchedFile.lineUpTo]

/-- A line that is written of a process is empty, or would be written of all of it. -/
theorem CutProcess.mem_lines {p : CutProcess} {l : Line} (hl : l ∈ p.lines) :
    l = [] ∨ l ∈ p.process.lines := by
  rcases List.mem_cons.1 hl with rfl | hl
  · exact .inr List.mem_cons_self
  · unfold schedLines at hl
    cases hs : p.process.sched with
    | none =>
      rw [hs] at hl
      exact absurd hl List.not_mem_nil
    | some f =>
      have hlines : p.process.lines = p.process.path :: f.lines := by
        rw [Process.lines, Process.schedLines, hs]
        rfl
      rw [hs, Option.map_some, Option.getD_some] at hl
      rw [hlines]
      cases hcut : p.cut with
      | none =>
        rw [hcut] at hl
        exact .inr (List.mem_cons_of_mem _ hl)
      | some k =>
        rw [hcut] at hl
        simp only [SchedFile.linesUpTo, List.mem_cons, List.not_mem_nil, or_false,
          SchedFile.lineUpTo, List.getElem?_take] at hl
        rcases hl with rfl | rfl | rfl | rfl <;> split
        any_goals exact .inl rfl
        all_goals simp [SchedFile.fiveLines, SchedFile.lines]

/-- The first line that the processes write is a path. -/
theorem head?_flatMap_cutLines {ps : List CutProcess} {l : Line}
    (hl : l ∈ (ps.flatMap CutProcess.lines).head?) : ∃ p : Process, l = p.path := by
  cases ps with
  | nil => cases hl
  | cons p ps =>
    cases hl
    exact ⟨p.process, rfl⟩

namespace CutSnapshot

theorem newline_not_mem_uptimeLine (s : CutSnapshot) : '\n' ∉ s.uptimeLine :=
  Snapshot.not_mem_uptimeLine { uptime := s.uptime, idle := s.idle, processes := [] } rfl

theorem newline_not_mem (s : CutSnapshot) :
    ∀ l ∈ s.processes.flatMap CutProcess.lines, '\n' ∉ l := by
  intro l hl
  obtain ⟨p, -, hl⟩ := List.mem_flatMap.1 hl
  rcases p.mem_lines hl with rfl | hl
  · exact List.not_mem_nil
  · exact p.process.newline_not_mem l hl

/-- A snapshot is written as the mark and its body. -/
theorem text_eq (s : CutSnapshot) : s.text = timeMark ++ s.body :=
  retrieveData_eq s.processes s.newline_not_mem_uptimeLine (fun p => p.process.entry_isProcess)
    CutProcess.writeProcess_eq

/-- There is no mark in the body. -/
theorem timeMark_not_infix (s : CutSnapshot) : ¬ timeMark <:+: s.body := by
  have huptime : '[' ∉ s.uptimeLine :=
    Snapshot.not_mem_uptimeLine { uptime := s.uptime, idle := s.idle, processes := [] } rfl
  refine timeMark_not_infix_lines huptime (fun l hl => ?_) fun l hl => ?_
  · obtain ⟨p, rfl⟩ := head?_flatMap_cutLines hl
    exact p.not_mem_path rfl
  · obtain ⟨p, -, hl⟩ := List.mem_flatMap.1 hl
    rcases p.mem_lines hl with rfl | hl
    · decide
    · exact p.process.timeMark_not_infix l hl

end CutSnapshot

/-- The pieces of the log are the bodies of its snapshots. -/
theorem timePts_flatMap_cutText (snapshots : List CutSnapshot) :
    timePts (snapshots.flatMap CutSnapshot.text) = snapshots.map CutSnapshot.body := by
  have htext : snapshots.flatMap CutSnapshot.text =
      (snapshots.map CutSnapshot.body).flatMap (timeMark ++ ·) := by
    rw [List.flatMap_map]
    exact List.flatMap_congr fun s _ => s.text_eq
  rw [htext]
  refine timePts_flatMap fun b hb => ?_
  obtain ⟨s, -, rfl⟩ := List.mem_map.1 hb
  exact s.timeMark_not_infix

/-! ## What is read -/

section
variable {F : Type} (round : ℚ → F)

/-- An empty line has no number. -/
theorem field_nil : field round [] = none := rfl

variable [Div F] {word : Line} {hackbenchTimes : List (F × F × F)} {gzip : Option (F × F × F)}
  {rest : List Line}

/-- An empty line is passed over. -/
theorem scan_nil (hnil : word ≠ []) : scan round word ([] :: rest) hackbenchTimes gzip =
    scan round word rest hackbenchTimes gzip :=
  scan_other round (not_hackbench_of_not_mem List.not_mem_nil) hnil

/-- The first line of hackbench is passed over before an empty one. -/
theorem scan_hackbench_nil {line : Line} (h : hackbench <:+: line) :
    scan round word (line :: [] :: rest) hackbenchTimes gzip =
      scan round word ([] :: rest) hackbenchTimes gzip := by
  rw [scan, if_pos h]
  rfl

/-- A number is missing behind a first line. -/
theorem scan_eq_none {line l : Line} (hl : 2 ≤ (l.splitOn ':').length ∨ ¬ hackbench <:+: line)
    (hw : hackbench <:+: line ∨ word = line.take 4) (htriple : triple round (l :: rest) = none) :
    scan round word (line :: l :: rest) hackbenchTimes gzip = none := by
  rw [scan]
  split
  · next hh =>
    have hlen : ¬ (l.splitOn ':').length < 2 := Nat.not_lt.2 (hl.resolve_right fun h => h hh)
    simp only [List.getElem?_cons_zero, Option.bind_eq_bind, Option.bind_some, if_neg hlen, htriple,
      Option.bind_none]
  · next hh =>
    rw [if_pos (hw.resolve_left hh), htriple]
    rfl

/-- The third number is missing. -/
theorem triple_eq_none (a b : Line) : triple round (a :: b :: [] :: rest) = none := by
  unfold triple
  simp only [List.getElem?_cons_zero, List.getElem?_cons_succ, Option.bind_eq_bind,
    Option.bind_some, field_nil, Option.bind_none, Option.bind_fun_none]

namespace SchedFile
variable {f : SchedFile} {k : Fin 5}

theorem lineUpTo_of_lt {i : Nat} (h : i < k.val) :
    f.lineUpTo k i = (f.fiveLines[i]?).getD [] := by
  rw [lineUpTo, List.getElem?_take_of_lt h]

theorem lineUpTo_of_le {i : Nat} (h : k.val ≤ i) : f.lineUpTo k i = [] := by
  rw [lineUpTo, List.getElem?_take_eq_none h]
  rfl

/-- The lines with numbers, and the empty lines for those that are missing, are passed over. -/
theorem scan_numbers (hf : f.NoGzipKey) :
    scan round "gzip".toList (f.lineUpTo k 2 :: f.lineUpTo k 3 :: f.lineUpTo k 4 :: rest)
        hackbenchTimes gzip =
      scan round "gzip".toList rest hackbenchTimes gzip := by
  obtain ⟨hexec, hvrun, hsum⟩ := hf.skips
  have hline : ∀ i (l : Line) (r : List Line), (f.fiveLines[i]?).getD [] = l → ¬ hackbench <:+: l →
      "gzip".toList ≠ l.take 4 →
      scan round "gzip".toList (f.lineUpTo k i :: r) hackbenchTimes gzip =
        scan round "gzip".toList r hackbenchTimes gzip := by
    rintro i l r rfl hl hw
    rcases Nat.lt_or_ge i k.val with hi | hi
    · rw [lineUpTo_of_lt hi]
      exact scan_other round hl hw
    · rw [lineUpTo_of_le hi]
      exact scan_nil round (by decide)
  rw [hline 2 _ _ rfl f.execStart.not_hackbench_line hexec,
    hline 3 _ _ rfl f.vruntime.not_hackbench_line hvrun,
    hline 4 _ _ rfl f.sumExec.not_hackbench_line hsum]

/-- The lines of a file that ends early. -/
theorem scan_cut (hf : f.NoGzipKey) :
    scan round "gzip".toList (f.linesUpTo (some k) ++ rest) hackbenchTimes gzip =
      if f.Breaks k then none else scan round "gzip".toList rest hackbenchTimes gzip := by
  have hlast : f.lineUpTo k 4 = [] := lineUpTo_of_le (Nat.le_of_lt_succ k.isLt)
  have htriple : TimeTracker.triple round
      (f.lineUpTo k 2 :: f.lineUpTo k 3 :: f.lineUpTo k 4 :: rest) = none := by
    rw [hlast]
    exact triple_eq_none round _ _
  have hlines : f.linesUpTo (some k) ++ rest =
      f.lineUpTo k 0 :: f.lineUpTo k 2 :: f.lineUpTo k 3 :: f.lineUpTo k 4 :: rest := rfl
  rw [hlines]
  rcases Nat.eq_zero_or_pos k.val with hk | hk
  · -- not even the first line is there
    have hbreaks : ¬ f.Breaks k := by
      rintro (⟨-, hle⟩ | ⟨-, hle⟩) <;> exact absurd (Fin.le_def.1 hle) (by simp [hk])
    rw [if_neg hbreaks, lineUpTo_of_le (Nat.le_of_eq hk), scan_nil round (by decide),
      scan_numbers round hf]
  · have hfirst : f.lineUpTo k 0 = f.firstLine := lineUpTo_of_lt hk
    rw [hfirst]
    by_cases hh : f.IsHackbench
    · rcases Nat.lt_or_ge k.val 3 with hk3 | hk3
      · have hbreaks : ¬ f.Breaks k := by
          rintro (⟨-, hle⟩ | ⟨hg, -⟩)
          · exact absurd (Fin.le_def.1 hle) (Nat.not_le.2 hk3)
          · exact hg.1 hh
        rw [if_neg hbreaks]
        refine Eq.trans ?_ (scan_numbers round hf (k := k))
        rw [lineUpTo_of_le (Nat.le_of_lt_succ hk3)]
        exact scan_hackbench_nil round hh
      · have hcolon : 2 ≤ ((f.lineUpTo k 2).splitOn ':').length := by
          rw [lineUpTo_of_lt hk3]
          show 2 ≤ (f.execStart.line.splitOn ':').length
          rw [f.execStart.splitOn_line]
          exact Nat.le_refl 2
        rw [if_pos (.inl ⟨hh, hk3⟩)]
        exact scan_eq_none round (.inl hcolon) (.inl hh) htriple
    · by_cases hg : "gzip".toList = f.firstLine.take 4
      · rw [if_pos (.inr ⟨⟨hh, hg⟩, hk⟩)]
        exact scan_eq_none round (.inr hh) (.inr hg) htriple
      · have hbreaks : ¬ f.Breaks k := by
          rintro (⟨hh', -⟩ | ⟨hg', -⟩)
          · exact hh hh'
          · exact hg hg'.2
        rw [if_neg hbreaks, scan_other round hh hg, scan_numbers round hf]

end SchedFile

/-- The lines of a process. -/
theorem CutProcess.scan_lines (p : CutProcess) :
    scan round "gzip".toList (p.lines ++ rest) hackbenchTimes gzip =
      if p.Breaks then none else
        scan round "gzip".toList rest
          (hackbenchTimes ++ (hackbenchFiles p.whole.toList).map (SchedFile.triple round))
          (((filesOf "gzip".toList p.whole.toList).getLast?.map (SchedFile.triple round)).or
            gzip) := by
  rw [lines, List.cons_append, scan_path round p.process (by decide), schedLines]
  cases hs : p.process.sched with
  | none =>
    have hbreaks : ¬ p.Breaks := by
      rintro ⟨f, hf, -⟩
      rw [hs] at hf
      cases hf
    have hwhole : p.whole = none := by
      rw [whole, hs]
      exact ite_self none
    rw [if_neg hbreaks, hwhole]
    simp [hackbenchFiles, filesOf]
  | some f =>
    have hkey := p.noGzipKey f hs
    rw [Option.map_some, Option.getD_some]
    cases hcut : p.cut with
    | none =>
      have hbreaks : ¬ p.Breaks := by
        rintro ⟨-, -, k, hk, -⟩
        rw [hcut] at hk
        cases hk
      have hwhole : p.whole = some f := by rw [whole, if_pos hcut, hs]
      rw [if_neg hbreaks, hwhole]
      exact scan_sched round hkey.skips
    | some k =>
      have hbreaks : p.Breaks ↔ f.Breaks k := by simp [Breaks, hs, hcut]
      have hwhole : p.whole = none := by
        rw [whole, hcut]
        rfl
      rw [SchedFile.scan_cut round hkey, hwhole]
      simp [hackbenchFiles, filesOf, hbreaks]

/-- The lines of the processes. -/
theorem scan_cutProcesses (ps : List CutProcess) :
    scan round "gzip".toList (ps.flatMap CutProcess.lines ++ rest) hackbenchTimes gzip =
      if ∃ p ∈ ps, p.Breaks then none else
        scan round "gzip".toList rest
          (hackbenchTimes ++
            (hackbenchFiles (ps.filterMap CutProcess.whole)).map (SchedFile.triple round))
          (((filesOf "gzip".toList (ps.filterMap CutProcess.whole)).getLast?.map
            (SchedFile.triple round)).or gzip) := by
  induction ps generalizing hackbenchTimes gzip with
  | nil => simp [hackbenchFiles, filesOf]
  | cons p ps ih =>
    rw [List.flatMap_cons, List.append_assoc, p.scan_lines round]
    by_cases hp : p.Breaks
    · rw [if_pos hp, if_pos ⟨p, List.mem_cons_self, hp⟩]
    · rw [if_neg hp, ih]
      have hbreaks : (∃ q ∈ p :: ps, q.Breaks) ↔ ∃ q ∈ ps, q.Breaks :=
        (List.exists_mem_cons_iff _ _ _).trans (or_iff_right hp)
      have hfiles : (p :: ps).filterMap CutProcess.whole =
          p.whole.toList ++ ps.filterMap CutProcess.whole := by
        rw [List.filterMap_cons]
        cases p.whole <;> rfl
      have hhackbench : hackbenchFiles ((p :: ps).filterMap CutProcess.whole) =
          hackbenchFiles p.whole.toList ++ hackbenchFiles (ps.filterMap CutProcess.whole) := by
        rw [hfiles]
        exact List.filter_append _ _
      have hgzip : filesOf "gzip".toList ((p :: ps).filterMap CutProcess.whole) =
          filesOf "gzip".toList p.whole.toList ++
            filesOf "gzip".toList (ps.filterMap CutProcess.whole) := by
        rw [hfiles]
        exact List.filter_append _ _
      simp only [hbreaks]
      rw [hhackbench, hgzip, List.map_append, List.append_assoc, List.getLast?_append,
        Option.map_or, Option.or_assoc]

/-- The snapshot as it is parsed, if no number is missed. -/
def CutSnapshot.parsed (s : CutSnapshot) : Parsed F where
  utime := round s.uptime.value
  hackbenchTimes := (hackbenchFiles s.whole).map (SchedFile.triple round)
  gzip := (filesOf "gzip".toList s.whole).getLast?.map (SchedFile.triple round)

/-- What `parse_snapshot` returns for a snapshot in which processes disappear. -/
theorem parse_cut (s : CutSnapshot) :
    Plotter.parseSnapshot round s.body =
      if ∃ p ∈ s.processes, p.Breaks then none else some (s.parsed round) := by
  have hnil : "gzip".toList ≠ [] := by decide
  have hpath : "gzip".toList ≠ "\"/pr".toList := by decide
  have hhead : ∀ l ∈ (s.processes.flatMap CutProcess.lines).head?,
      ¬ hackbench <:+: l ∧ "gzip".toList ≠ l.take 4 := by
    intro l hl
    obtain ⟨p, rfl⟩ := head?_flatMap_cutLines hl
    exact ⟨not_hackbench_of_not_mem (p.not_mem_path rfl), hpath⟩
  have hparse := parse_lines round s.uptime s.idle s.newline_not_mem hhead hnil
  rw [scan_cutProcesses round s.processes, scan_nil round hnil, scan_nil round hnil, scan,
    List.nil_append, Option.or_none, apply_ite (Option.map _)] at hparse
  exact hparse

end

end TimeTracker
