import Mathlib.Data.List.TakeWhile

/-!
# What `sched_tracker.cpp` writes

`retrieve_data` of `time_tracker/sched_tracker.cpp`: a snapshot of `/proc/uptime` and of the `sched`
file of every process. A file is its content, and `none` when it cannot be opened.
-/

namespace TimeTracker

/-- The text of a line or a file. -/
abbrev Line := List Char

/-- The line break. -/
def newline : Line := ['\n']

/-! ## Reading lines -/

/-- A `std::ifstream`: the characters that are left to read, and whether no read has met the end of
the file. -/
structure IFStream where
  isOpen : Bool
  rest : List Char
  good : Bool

/-- A stream on a file. -/
def IFStream.open : Option (List Char) → IFStream
  | some content => { isOpen := true, rest := content, good := true }
  | none => { isOpen := false, rest := [], good := false }

/-- `std::getline(stream, line)`: the stream after it, and the value of `line`. A stream that is
not good leaves `line` as it was. -/
def IFStream.getline (s : IFStream) (line : Line) : IFStream × Line :=
  if s.good then
    match s.rest.dropWhile (· ≠ '\n') with
    | [] => ({ s with rest := [], good := false }, s.rest)
    | _ :: rest => ({ s with rest := rest }, s.rest.takeWhile (· ≠ '\n'))
  else (s, line)

/-! ## Writing a snapshot -/

/-- An entry of `/proc`: its name, and the content of the file `sched` in it. -/
structure DirEntry where
  filename : Line
  sched : Option (List Char)

/-- A path as `operator<<` prints it: in double quotes, with a backslash before a quote or a
backslash. -/
def quoted (path : Line) : Line :=
  '"' :: path.flatMap (fun c => if c = '"' ∨ c = '\\' then ['\\', c] else [c]) ++ ['"']

/-- The body of the loop over the entries, for an entry whose name starts with a digit
(`sched_tracker.cpp:107-135`). The second line of the file is read and not written. -/
def writeProcess (entry : DirEntry) : List Char :=
  let sched := IFStream.open entry.sched
  quoted ("/proc/".toList ++ entry.filename) ++ newline ++
  if !sched.isOpen then [] else
  let (sched, line) := sched.getline []
  line ++ newline ++
  if !sched.isOpen then [] else
  let (sched, line) := sched.getline line
  if !sched.isOpen then [] else
  let (sched, line) := sched.getline line
  line ++ newline ++
  if !sched.isOpen then [] else
  let (sched, line) := sched.getline line
  line ++ newline ++
  if !sched.isOpen then [] else
  let (_, line) := sched.getline line
  line ++ newline

/-- `std::isdigit(filename[0])`. `filename` points into a path that is gone by then
(`sched_tracker.cpp:105`); the character is taken to be still there. -/
def DirEntry.isProcess (entry : DirEntry) : Bool := entry.filename.head?.any Char.isDigit

/-- `[TIME] `, with which a snapshot starts. -/
def timeMark : Line := "[TIME] ".toList

/-- `retrieve_data`: what it appends to the output file (`sched_tracker.cpp:93`). -/
def retrieveData (uptimeFile : Option (List Char)) (proc : List DirEntry) : List Char :=
  let (_, uptime) := (IFStream.open uptimeFile).getline []
  timeMark ++ uptime ++ (proc.filter DirEntry.isProcess).flatMap writeProcess ++ newline

/-- A line that ends in a line break is read without it. -/
theorem getline_newline (l rest line : List Char) (hl : '\n' ∉ l) :
    IFStream.getline { isOpen := true, rest := l ++ '\n' :: rest, good := true } line =
      ({ isOpen := true, rest := rest, good := true }, l) := by
  have hne : ∀ c ∈ l, decide (c ≠ '\n') = true :=
    fun c hc => decide_eq_true fun h => hl (h ▸ hc)
  rw [IFStream.getline, if_pos rfl]
  dsimp only
  rw [List.dropWhile_append_of_pos hne, List.takeWhile_append_of_pos hne,
    List.dropWhile_cons_of_neg (by decide), List.takeWhile_cons_of_neg (by decide),
    List.append_nil]

/-- The last line of a file without a line break at its end is read up to the end. -/
theorem getline_end (l line : List Char) (hl : '\n' ∉ l) :
    IFStream.getline { isOpen := true, rest := l, good := true } line =
      ({ isOpen := true, rest := [], good := false }, l) := by
  have hne : ∀ c ∈ l, decide (c ≠ '\n') = true :=
    fun c hc => decide_eq_true fun h => hl (h ▸ hc)
  rw [IFStream.getline, if_pos rfl]
  dsimp only
  rw [List.dropWhile_eq_nil_iff.2 hne]

end TimeTracker
