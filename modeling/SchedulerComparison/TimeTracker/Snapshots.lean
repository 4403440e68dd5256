import SchedulerComparison.TimeTracker.Plotter

/-!
# The snapshots that are read back

The texts of `/proc` that the two scripts are written for: an uptime line with two numbers, and for
every process a `sched` file that cannot be opened, or one of at least five lines.
`Snapshot.text_eq` is what `retrieve_data` writes of them, line by line; the path of the first
process stands on the line of the uptime.
-/

namespace TimeTracker

/-- Printable ASCII. -/
def Printable (cs : Line) : Prop := ∀ c ∈ cs, ' ' ≤ c ∧ c ≤ '~'

instance (cs : Line) : Decidable (Printable cs) := List.decidableBAll _ cs

/-- There is no line break in printable text. -/
theorem Printable.newline_not_mem {cs : Line} (h : Printable cs) : '\n' ∉ cs :=
  fun hmem => absurd (h _ hmem).1 (by decide)

/-- A line `key : number`, with any white space around the colon. -/
structure Field where
  key : Line
  pad : Nat
  number : Text.Decimal
  printable : Printable key
  colon_not_mem : ':' ∉ key
  not_hackbench : ¬ hackbench <:+: key
  not_timeMark : ¬ timeMark <:+: key

/-- The value of a field. -/
def Field.text (f : Field) : Line := List.replicate f.pad ' ' ++ f.number.text

/-- The line of a field. -/
def Field.line (f : Field) : Line := f.key ++ ':' :: f.text

/-- A `sched` file of at least five lines. The file ends after the fifth, or goes on in a new
line. -/
structure SchedFile where
  comm : Line
  pid : Line
  threads : Line
  second : Line
  execStart : Field
  vruntime : Field
  sumExec : Field
  more : Option (List Char)
  comm_printable : Printable comm
  pid_digits : ∀ c ∈ pid, c.isDigit = true
  threads_digits : ∀ c ∈ threads, c.isDigit = true
  second_printable : Printable second
  not_timeMark :
    ¬ timeMark <:+: comm ++ " (".toList ++ pid ++ ", #threads: ".toList ++ threads ++ [')']

namespace SchedFile

/-- The first line, `comm (pid, #threads: n)`. -/
def firstLine (f : SchedFile) : Line :=
  f.comm ++ " (".toList ++ f.pid ++ ", #threads: ".toList ++ f.threads ++ [')']

/-- The lines that `retrieve_data` copies. -/
def lines (f : SchedFile) : List Line :=
  [f.firstLine, f.execStart.line, f.vruntime.line, f.sumExec.line]

/-- The content of the file. -/
def content (f : SchedFile) : List Char :=
  Text.unlines '\n' [f.firstLine, f.second, f.execStart.line, f.vruntime.line] ++
    (f.sumExec.line ++ match f.more with
      | none => []
      | some rest => '\n' :: rest)

end SchedFile

/-- A process of `/proc`. -/
structure Process where
  pid : Line
  sched : Option SchedFile
  pid_ne_nil : pid ≠ []
  pid_digits : ∀ c ∈ pid, c.isDigit = true

/-- What the directory iterator finds. -/
def Process.entry (p : Process) : DirEntry where
  filename := p.pid
  sched := p.sched.map SchedFile.content

/-- The line of the path. -/
def Process.path (p : Process) : Line := "\"/proc/".toList ++ p.pid ++ ['"']

/-- The lines that `retrieve_data` writes of a `sched` file. -/
def Process.schedLines (p : Process) : List Line := (p.sched.map SchedFile.lines).getD []

/-- The lines that `retrieve_data` writes of a process. -/
def Process.lines (p : Process) : List Line := p.path :: p.schedLines

/-- A snapshot of `/proc`. -/
structure Snapshot where
  uptime : Text.Decimal
  idle : Text.Decimal
  processes : List Process

namespace Snapshot

/-- The line of `/proc/uptime`. -/
def uptimeLine (s : Snapshot) : Line := s.uptime.text ++ ' ' :: s.idle.text

/-- What `retrieve_data` writes of the snapshot. -/
def text (s : Snapshot) : List Char :=
  retrieveData (some (s.uptimeLine ++ newline)) (s.processes.map Process.entry)

/-- The text after the mark. -/
def body (s : Snapshot) : List Char :=
  s.uptimeLine ++ (Text.unlines '\n' (s.processes.flatMap Process.lines) ++ newline)

end Snapshot

/-! ## The characters of a line -/

/-- A digit is no line break. -/
theorem newline_not_mem_digits {cs : Line} (h : ∀ c ∈ cs, c.isDigit = true) : '\n' ∉ cs :=
  fun hmem => absurd (h _ hmem) (by decide)

/-- A character that is neither a space nor one of a number is not in the value of a field. -/
theorem Field.not_mem_text (f : Field) {c : Char}
    (hc : (c == ' ' || Text.Decimal.isChar c) = false) : c ∉ f.text := by
  obtain ⟨hspace, hchar⟩ := Bool.or_eq_false_iff.1 hc
  intro hmem
  rcases List.mem_append.1 hmem with hmem | hmem
  · exact beq_eq_false_iff_ne.1 hspace (List.eq_of_mem_replicate hmem)
  · exact f.number.not_mem_text hchar hmem

theorem Field.newline_not_mem (f : Field) : '\n' ∉ f.line := by
  intro hmem
  rcases List.mem_append.1 hmem with hmem | hmem
  · exact f.printable.newline_not_mem hmem
  · rcases List.mem_cons.1 hmem with hmem | hmem
    · cases hmem
    · exact f.not_mem_text rfl hmem

theorem SchedFile.newline_not_mem (f : SchedFile) : '\n' ∉ f.firstLine := by
  intro hmem
  simp only [firstLine, List.mem_append] at hmem
  rcases hmem with ((((hmem | hmem) | hmem) | hmem) | hmem) | hmem
  · exact f.comm_printable.newline_not_mem hmem
  · exact absurd hmem (by decide)
  · exact newline_not_mem_digits f.pid_digits hmem
  · exact absurd hmem (by decide)
  · exact newline_not_mem_digits f.threads_digits hmem
  · exact absurd hmem (by decide)

/-- A digit, or one of `"/proc`. -/
def isPathChar (c : Char) : Bool := c.isDigit || ['"', '/', 'p', 'r', 'o', 'c'].contains c

/-- The characters of a path. -/
theorem Process.isPathChar_of_mem {p : Process} {c : Char} (hc : c ∈ p.path) :
    isPathChar c = true := by
  have hstart : "\"/proc/".toList.all isPathChar = true := rfl
  unfold path at hc
  rw [List.mem_append, List.mem_append] at hc
  obtain (hc | hc) | hc := hc
  · exact List.all_eq_true.1 hstart c hc
  · rw [isPathChar, p.pid_digits c hc, Bool.true_or]
  · obtain rfl := List.mem_singleton.1 hc
    rfl

/-- Another character is not in a path. -/
theorem Process.not_mem_path (p : Process) {c : Char} (hc : isPathChar c = false) : c ∉ p.path :=
  fun hmem => Bool.false_ne_true (hc.symm.trans (isPathChar_of_mem hmem))

/-- A property of paths, first lines and fields is one of all lines of a process. -/
theorem Process.forall_mem_lines {P : Line → Prop} {p : Process} (hpath : P p.path)
    (hfirst : ∀ f : SchedFile, P f.firstLine) (hfield : ∀ f : Field, P f.line) :
    ∀ l ∈ p.lines, P l := by
  intro l hl
  rcases List.mem_cons.1 hl with rfl | hl
  · exact hpath
  · unfold schedLines at hl
    cases hs : p.sched with
    | none =>
      rw [hs] at hl
      exact absurd hl List.not_mem_nil
    | some f =>
      rw [hs] at hl
      simp only [Option.map_some, Option.getD_some, SchedFile.lines, List.mem_cons,
        List.not_mem_nil, or_false] at hl
      rcases hl with rfl | rfl | rfl | rfl
      · exact hfirst f
      · exact hfield f.execStart
      · exact hfield f.vruntime
      · exact hfield f.sumExec

theorem Process.newline_not_mem (p : Process) : ∀ l ∈ p.lines, '\n' ∉ l :=
  forall_mem_lines (p.not_mem_path rfl) SchedFile.newline_not_mem Field.newline_not_mem

/-- A character that is neither a space nor one of a number is not in the uptime line. -/
theorem Snapshot.not_mem_uptimeLine (s : Snapshot) {c : Char}
    (hc : (c == ' ' || Text.Decimal.isChar c) = false) : c ∉ s.uptimeLine := by
  obtain ⟨hspace, hchar⟩ := Bool.or_eq_false_iff.1 hc
  intro hmem
  rcases List.mem_append.1 hmem with hmem | hmem
  · exact s.uptime.not_mem_text hchar hmem
  · rcases List.mem_cons.1 hmem with hmem | hmem
    · exact beq_eq_false_iff_ne.1 hspace hmem
    · exact s.idle.not_mem_text hchar hmem

/-! ## The lines after the mark -/

/-- The lines after the mark, when the processes write the lines `ls`: the first of these stands on
the line of the uptime. -/
def linesAfterMark (uptime : Line) : List Line → List Line
  | [] => [uptime]
  | l :: ls => (uptime ++ l) :: ls ++ [[]]

section
variable {uptime : Line} {ls : List Line}

/-- What is written after the mark, in lines. -/
theorem unlines_linesAfterMark (uptime : Line) (ls : List Line) :
    uptime ++ (Text.unlines '\n' ls ++ newline) = Text.unlines '\n' (linesAfterMark uptime ls) := by
  cases ls with
  | nil => simp [linesAfterMark, newline]
  | cons l ls => simp [linesAfterMark, newline]

/-- A property of the lines that are written is one of the lines after the mark, if the first line
keeps it after the uptime. -/
theorem forall_mem_linesAfterMark {P : Line → Prop} (huptime : P uptime)
    (hhead : ∀ l ∈ ls.head?, P (uptime ++ l)) (h : ∀ l ∈ ls, P l) (hnil : P []) :
    ∀ l ∈ linesAfterMark uptime ls, P l := by
  intro l hl
  unfold linesAfterMark at hl
  split at hl
  · obtain rfl := List.mem_singleton.1 hl
    exact huptime
  · next l' ls' =>
    rw [List.cons_append, List.mem_cons, List.mem_append, List.mem_singleton] at hl
    obtain rfl | hl | rfl := hl
    · exact hhead l' rfl
    · exact h l (List.mem_cons_of_mem l' hl)
    · exact hnil

/-- The lines that `content.split('\n')` gives. -/
theorem splitOn_linesAfterMark (huptime : '\n' ∉ uptime) (h : ∀ l ∈ ls, '\n' ∉ l) :
    (uptime ++ (Text.unlines '\n' ls ++ newline)).splitOn '\n' =
      linesAfterMark uptime ls ++ [[]] := by
  rw [unlines_linesAfterMark, ← List.append_nil (Text.unlines _ _), Text.splitOn_unlines,
    List.splitOn_nil]
  refine forall_mem_linesAfterMark huptime (fun l hl hmem => ?_) h List.not_mem_nil
  exact (List.mem_append.1 hmem).elim huptime (h l (List.mem_of_mem_head? hl))

/-- The mark does not occur again when it is in none of the lines. -/
theorem timeMark_not_infix_lines (huptime : '[' ∉ uptime) (hhead : ∀ l ∈ ls.head?, '[' ∉ l)
    (h : ∀ l ∈ ls, ¬ timeMark <:+: l) :
    ¬ timeMark <:+: uptime ++ (Text.unlines '\n' ls ++ newline) := by
  have hmark : ∀ l : Line, '[' ∉ l → ¬ timeMark <:+: l :=
    fun l hl hin => hl (hin.subset List.mem_cons_self)
  have hall : ∀ l ∈ linesAfterMark uptime ls, ¬ timeMark <:+: l := by
    refine forall_mem_linesAfterMark (hmark _ huptime) (fun l hl => hmark _ fun hmem => ?_) h
      (hmark _ List.not_mem_nil)
    exact (List.mem_append.1 hmem).elim huptime (hhead l hl)
  rw [unlines_linesAfterMark, ← List.append_nil (Text.unlines _ _)]
  intro hin
  obtain ⟨l, hl, hin⟩ | hin := Text.infix_of_unlines (by decide) hin
  · exact hall l hl hin
  · exact hmark [] List.not_mem_nil hin

/-- A snapshot is written as the mark and what follows it, when every process writes its lines. -/
theorem retrieveData_eq {α : Type} {entry : α → DirEntry} {lines : α → List Line} (ps : List α)
    (huptime : '\n' ∉ uptime) (hprocess : ∀ p, (entry p).isProcess = true)
    (hlines : ∀ p, writeProcess (entry p) = Text.unlines '\n' (lines p)) :
    retrieveData (some (uptime ++ newline)) (ps.map entry) =
      timeMark ++ (uptime ++ (Text.unlines '\n' (ps.flatMap lines) ++ newline)) := by
  have hps : ((ps.map entry).filter DirEntry.isProcess).flatMap writeProcess =
      Text.unlines '\n' (ps.flatMap lines) := by
    induction ps with
    | nil => rfl
    | cons p ps ih =>
      rw [List.map_cons, List.filter_cons_of_pos (hprocess p), List.flatMap_cons,
        List.flatMap_cons, ih, hlines, Text.unlines_append]
  unfold retrieveData IFStream.open
  dsimp only
  rw [newline, getline_newline uptime [] [] huptime, hps]
  simp only [List.append_assoc]

end

/-! ## What is written -/

/-- The path of a process needs no backslash. -/
theorem Process.quoted_path (p : Process) : quoted ("/proc/".toList ++ p.pid) = p.path := by
  have hescape : ∀ cs : Line, (∀ c ∈ cs, c ≠ '"' ∧ c ≠ '\\') →
      cs.flatMap (fun c => if c = '"' ∨ c = '\\' then ['\\', c] else [c]) = cs := by
    intro cs h
    induction cs with
    | nil => rfl
    | cons c cs ih =>
      have hc : ¬ (c = '"' ∨ c = '\\') := not_or.2 (h c List.mem_cons_self)
      rw [List.flatMap_cons, if_neg hc, ih fun d hd => h d (List.mem_cons_of_mem c hd)]
      rfl
  have hproc : ∀ c ∈ "/proc/".toList, c ≠ '"' ∧ c ≠ '\\' := by simp
  have hpid : ∀ c ∈ p.pid, c ≠ '"' ∧ c ≠ '\\' := by
    intro c hc
    refine ⟨?_, ?_⟩ <;> rintro rfl <;> exact absurd (p.pid_digits _ hc) (by decide)
  rw [quoted, hescape]
  · rfl
  · intro c hc
    rcases List.mem_append.1 hc with hc | hc
    · exact hproc c hc
    · exact hpid c hc

/-- Five lines are read of the file, and all but the second are written. -/
theorem Process.writeProcess_eq (p : Process) :
    writeProcess p.entry = Text.unlines '\n' p.lines := by
  unfold writeProcess lines schedLines entry
  dsimp only
  rw [p.quoted_path]
  cases p.sched with
  | none => rfl
  | some f =>
    have hfirst := f.newline_not_mem
    have hsecond := f.second_printable.newline_not_mem
    have hexec := f.execStart.newline_not_mem
    have hvrun := f.vruntime.newline_not_mem
    have hsum := f.sumExec.newline_not_mem
    simp only [Option.map_some, IFStream.open, SchedFile.content, Text.unlines_cons,
      Text.unlines_nil, List.append_assoc, List.cons_append, List.nil_append]
    rw [getline_newline _ _ _ hfirst, getline_newline _ _ _ hsecond, getline_newline _ _ _ hexec,
      getline_newline _ _ _ hvrun]
    -- the fifth line may be the last one
    cases f.more with
    | none =>
      simp only [List.append_nil]
      rw [getline_end _ _ hsum]
      simp [newline, SchedFile.lines]
    | some rest =>
      rw [getline_newline _ _ _ hsum]
      simp [newline, SchedFile.lines]

/-- The name of a process starts with a digit. -/
theorem Process.entry_isProcess (p : Process) : p.entry.isProcess = true := by
  unfold DirEntry.isProcess entry
  dsimp only
  cases hpid : p.pid with
  | nil => exact absurd hpid p.pid_ne_nil
  | cons c cs => exact p.pid_digits c (hpid ▸ List.mem_cons_self)

/-- A snapshot is written as the mark and its body. -/
theorem Snapshot.text_eq (s : Snapshot) : s.text = timeMark ++ s.body :=
  retrieveData_eq s.processes (s.not_mem_uptimeLine rfl) Process.entry_isProcess
    Process.writeProcess_eq

/-- The first line that the processes write is a path. -/
theorem head?_flatMap_lines {ps : List Process} {l : Line}
    (hl : l ∈ (ps.flatMap Process.lines).head?) : ∃ p : Process, l = p.path := by
  cases ps with
  | nil => cases hl
  | cons p ps =>
    cases hl
    exact ⟨p, rfl⟩

/-! ## The mark is only at the start -/

theorem Field.timeMark_not_infix (f : Field) : ¬ timeMark <:+: f.line := by
  intro h
  have hcolon : ':' ∉ timeMark := by decide
  rcases Text.infix_of_append_cons hcolon h with h | h
  · exact f.not_timeMark h
  · have hmem : '[' ∈ f.text := h.subset List.mem_cons_self
    exact f.not_mem_text rfl hmem

theorem Process.timeMark_not_infix (p : Process) : ∀ l ∈ p.lines, ¬ timeMark <:+: l := by
  refine forall_mem_lines (fun h => ?_) SchedFile.not_timeMark Field.timeMark_not_infix
  have hmem : '[' ∈ p.path := h.subset List.mem_cons_self
  exact p.not_mem_path rfl hmem

/-- There is no mark in the uptime line, nor in the path that is written after it. -/
theorem Snapshot.timeMark_not_infix (s : Snapshot) : ¬ timeMark <:+: s.body := by
  refine timeMark_not_infix_lines (s.not_mem_uptimeLine rfl) (fun l hl => ?_) fun l hl => ?_
  · obtain ⟨p, rfl⟩ := head?_flatMap_lines hl
    exact p.not_mem_path rfl
  · obtain ⟨p, -, hl⟩ := List.mem_flatMap.1 hl
    exact p.timeMark_not_infix l hl

end TimeTracker
