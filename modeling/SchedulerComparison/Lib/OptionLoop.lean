import SchedulerComparison.Lib.CxxString
import SchedulerComparison.Lib.Getopt

/-!
# A loop over options with a misplaced check

A program that calls `getopt_long` until it returns `-1`, with a variable of its own for the index
of the long option, and looks at `argv[index]` to see whether the argument of an option is missing.
`getopt_long` reports a missing argument itself, so that the check can only go wrong. When the index
of every option with an argument is at most two, it does so for a single command line: one that is
nothing but the option of index two, with its argument attached (`parse_of_lone`); for every other
command line the loop does what it would do without the check (`parse_of_not_lone`).
-/

open CxxString Getopt

namespace OptionLoop

/-- The ways the loop ends other than by returning. -/
inductive Stop where
  /-- The usage, and an exit, after the lines `stderr`. -/
  | usageExit (stderr : List (List Char))
  /-- An exception of `std::stoi`, which nothing catches. -/
  | stoiThrows (error : StoiError)
  /-- A read behind the end of `argv`, which has no meaning. -/
  | undefined
  deriving DecidableEq

/-- What a program does with the argument of an option, and the line that complains that it is
missing. -/
structure ArgOption (α : Type) where
  missing : List Char
  set : List Char → α → Except Stop α

/-- The options of a program. `h` asks for the usage. -/
structure Options (α : Type) where
  optstring : List Char
  longopts : List LongOption
  withArg : Char → Option (ArgOption α)

/-- The variables of the loop. -/
structure Parse (α : Type) where
  args : α
  error : Bool := false
  index : Nat := 0
  stderr : List (List Char) := []

/-- `!argv[i]`: there are `argc` elements and a null pointer behind them. -/
def argvNull (argc i : Nat) : Except Stop Bool :=
  if i < argc then .ok false else if i = argc then .ok true else .error .undefined

/-- `std::stoi`. -/
def parseInt (s : List Char) : Except Stop Int := (stoi s).mapError .stoiThrows

section
variable {α : Type}

/-- An option of the program, which takes an argument unless it is not known or asks for the
usage. -/
def Options.option (o : Options α) (check : Nat → Except Stop Bool) (p : Parse α) (c : Char)
    (optarg : Option (List Char)) : Except Stop (Parse α) :=
  match o.withArg c with
  | some option => do
    if ← check p.index then
      return { p with error := true, stderr := p.stderr ++ [option.missing] }
    match optarg with
    | some v => return { p with args := ← option.set v p.args }
    | none => .error .undefined
  | none => if c = 'h' then .error (.usageExit p.stderr) else .ok { p with error := true }

/-- What is found is handled. -/
def Options.handle (o : Options α) (check : Nat → Except Stop Bool) (p : Parse α) :
    Found → Except Stop (Parse α)
  | .done => .ok p
  | .unknown => .ok { p with error := true }
  | .option c optarg longindex =>
    o.option check { p with index := longindex.getD p.index } c optarg

/-- The loop, with a check for a missing argument. -/
def Options.loop (o : Options α) (check : Nat → Except Stop Bool) (args : α)
    (argv : List (List Char)) : Except Stop α := do
  let p ← (calls o.optstring o.longopts ⟨[], argv.tail⟩).foldlM (o.handle check) { args }
  if p.error then .error (.usageExit p.stderr) else return p.args

/-- The loop with the check of `argv[index]`. -/
def Options.parse (o : Options α) (args : α) (argv : List (List Char)) : Except Stop α :=
  o.loop (argvNull argv.length) args argv

/-- The loop without a check. -/
def Options.parseUnchecked (o : Options α) (args : α) (argv : List (List Char)) :
    Except Stop α :=
  o.loop (fun _ => .ok false) args argv

/-- Every option with an argument is among the first three, and another one asks for the usage. -/
structure Options.Few (o : Options α) : Prop where
  index_le : ∀ x ∈ o.longopts.zipIdx, x.2 ≤ 2 ∧ x.1.hasArg = true ∨ x.1.val = 'h'
  help : o.withArg 'h' = none

/-- The command line is nothing but the long option of index two, with its argument attached. -/
def Options.Lone (o : Options α) (argv : List (List Char)) : Prop :=
  ∃ prog text option, argv = [prog, '-' :: '-' :: text] ∧ '=' ∈ text ∧
    longMatch o.longopts (text.takeWhile (· ≠ '=')) = some (option, 2)

/-- The command line is nothing but a long option, in full or abbreviated, with its argument
attached. -/
def LoneAttached (name : List Char) (argv : List (List Char)) : Prop :=
  ∃ prog w v, argv = [prog, '-' :: '-' :: (w ++ '=' :: v)] ∧ w ≠ [] ∧ w <+: name

/-- The option of index two has this name and this complaint, and every start of the name finds
it. -/
structure Options.Third (o : Options α) (name complaint : List Char) : Prop where
  not_mem : '=' ∉ name
  inits : ∀ w ∈ name.inits, w ≠ [] → (longMatch o.longopts w).map Prod.snd = some 2
  empty : longMatch o.longopts [] = none
  third : ∀ x ∈ o.longopts.zipIdx, x.2 = 2 → x.1.name = name ∧ x.1.hasArg = true ∧
    (o.withArg x.1.val).map ArgOption.missing = some complaint

/-- A lone option `name` is complained about, and every other command line is read as without the
check. -/
def ParsesBut (parse unchecked : List (List Char) → Except Stop α) (name complaint : List Char)
    (argv : List (List Char)) : Prop :=
  LoneAttached name argv ∧ parse argv = .error (.usageExit [complaint]) ∨
    ¬ LoneAttached name argv ∧ parse argv = unchecked argv

variable {o : Options α} {argc i : Nat} {p p' : Parse α} {argv : List (List Char)} {c : Char}
  {optarg : Option (List Char)} {name complaint : List Char}

/-! ## The check passes -/

theorem argvNull_of_lt (h : i < argc) : argvNull argc i = .ok false := if_pos h

/-- Where the index is that of an element, the check does nothing. -/
theorem Options.option_eq (h : p.index < argc) :
    o.option (argvNull argc) p c optarg = o.option (fun _ => .ok false) p c optarg := by
  unfold Options.option
  rw [argvNull_of_lt h]

/-- The variable keeps its index, or the loop ends. -/
theorem Options.index_option {check : Nat → Except Stop Bool}
    (h : o.option check p c optarg = .ok p') : p'.index = p.index := by
  unfold Options.option at h
  split at h
  · obtain ⟨missing, -, h⟩ := bind_eq_ok h
    cases missing with
    | true =>
      cases h
      rfl
    | false =>
      cases optarg with
      | none => cases h
      | some v =>
        obtain ⟨args, -, h⟩ := bind_eq_ok h
        cases h
        rfl
  · split at h <;> cases h
    rfl

/-- An option that is found lets the check pass: its index is that of an element, or it asks for the
usage. -/
def Passes (argc : Nat) : Found → Prop
  | .option c _ (some i) => i < argc ∨ c = 'h'
  | _ => True

/-- Such an option is handled as without a check. -/
theorem handle_eq (hhelp : o.withArg 'h' = none) {found : Found} (hf : Passes argc found)
    (hp : p.index < argc) :
    o.handle (argvNull argc) p found = o.handle (fun _ => .ok false) p found ∧
      ∀ p', o.handle (fun _ => .ok false) p found = .ok p' → p'.index < argc := by
  cases found with
  | done =>
    refine ⟨rfl, fun p' h => ?_⟩
    cases h
    exact hp
  | unknown =>
    refine ⟨rfl, fun p' h => ?_⟩
    cases h
    exact hp
  | option c optarg longindex =>
    have hlt : ∀ {i}, i < argc →
        o.option (argvNull argc) { p with index := i } c optarg =
            o.option (fun _ => .ok false) { p with index := i } c optarg ∧
          ∀ p', o.option (fun _ => .ok false) { p with index := i } c optarg = .ok p' →
            p'.index < argc :=
      fun hi => ⟨Options.option_eq hi, fun p' h => (Options.index_option h).trans_lt hi⟩
    cases longindex with
    | none => exact hlt hp
    | some i =>
      rcases hf with hi | rfl
      · exact hlt hi
      · have husage : ∀ check : Nat → Except Stop Bool,
            o.handle check p (.option 'h' optarg (some i)) = .error (.usageExit p.stderr) := by
          intro check
          show o.option check _ 'h' optarg = _
          rw [Options.option, hhelp]
          rfl
        refine ⟨(husage _).trans (husage _).symm, fun p' h => ?_⟩
        cases (husage _).symm.trans h

/-- A loop over such options does what it does without a check. -/
theorem foldlM_handle (hhelp : o.withArg 'h' = none) {founds : List Found}
    (hf : ∀ found ∈ founds, Passes argc found) (hp : p.index < argc) :
    founds.foldlM (o.handle (argvNull argc)) p =
      founds.foldlM (o.handle fun _ => .ok false) p := by
  induction founds generalizing p with
  | nil => rfl
  | cons found founds ih =>
    obtain ⟨heq, hkeeps⟩ := handle_eq hhelp (hf found List.mem_cons_self) hp
    rw [List.foldlM_cons, List.foldlM_cons, heq]
    cases h : o.handle (fun _ => .ok false) p found with
    | error => rfl
    | ok p' => exact ih (fun f hf' => hf f (List.mem_cons_of_mem _ hf')) (hkeeps p' h)

/-- The first three indices are those of elements when there are two arguments. -/
theorem passes_of_three (hfew : o.Few) (hargc : 3 ≤ argc) {s : Scan} {found : Found}
    (hf : found ∈ calls o.optstring o.longopts s) : Passes argc found := by
  obtain ⟨s', -, h⟩ := exists_of_mem_calls (I := fun _ => True) (fun _ _ => trivial) trivial hf
  match found with
  | .done | .unknown | .option _ _ none => exact trivial
  | .option c optarg (some i) =>
    obtain ⟨l, hmem, rfl⟩ := getoptLong_eq_option h
    rcases hfew.index_le (l, i) hmem with ⟨hle, -⟩ | hval
    · exact .inl (by omega)
    · exact .inr hval

/-! ## A single argument -/

theorem args_takeArg (val : Char) (longindex : Option Nat) (attached : Option (List Char)) :
    (takeArg val longindex attached []).2.args = [] := by
  unfold takeArg
  split
  · rfl
  · next h => cases h
  · rfl

theorem args_scanShort (optstring : List Char) (c : Char) (rest : List Char) :
    (scanShort optstring c rest []).2.args = [] := by
  unfold scanShort
  split
  · rfl
  · rfl
  · exact args_takeArg ..

theorem args_scanLong (longopts : List LongOption) (text : List Char) :
    (scanLong longopts text []).2.args = [] := by
  unfold scanLong
  dsimp only
  split
  · rfl
  · split
    · exact args_takeArg ..
    · split <;> rfl

theorem args_scanArgs (optstring : List Char) (longopts : List LongOption) (a : List Char) :
    (scanArgs optstring longopts [a]).2.args = [] := by
  unfold scanArgs
  split
  · rfl
  · exact args_scanLong ..
  · exact args_scanShort ..
  · rfl

/-- Of one element every index is found in the first call. -/
theorem scanArgs_of_mem_calls {optstring : List Char} {longopts : List LongOption} {a : List Char}
    (hf : .option c optarg (some i) ∈ calls optstring longopts ⟨[], [a]⟩) :
    (scanArgs optstring longopts [a]).1 = .option c optarg (some i) := by
  have hstep : ∀ s : Scan, s = ⟨[], [a]⟩ ∨ s.args = [] →
      (getoptLong optstring longopts s).2 = ⟨[], [a]⟩ ∨
        (getoptLong optstring longopts s).2.args = [] := by
    rintro ⟨nextchar, args⟩ hs
    rcases hs with heq | hnil
    · rw [heq]
      exact .inr (args_scanArgs ..)
    · obtain rfl : args = [] := hnil
      cases nextchar with
      | nil => exact .inr rfl
      | cons d rest => exact .inr (args_scanShort ..)
  obtain ⟨⟨nextchar, args⟩, hs, h⟩ := exists_of_mem_calls hstep (.inl rfl) hf
  rcases hs with heq | hnil
  · rwa [heq] at h
  · obtain rfl : args = [] := hnil
    cases nextchar with
    | nil => cases h
    | cons d rest => cases scanShort_eq_option h

/-- A single argument has an index only if it is a long option, with what it requires attached. -/
theorem scanArgs_eq_option {optstring : List Char} {longopts : List LongOption} {a : List Char}
    (h : (scanArgs optstring longopts [a]).1 = .option c optarg (some i)) :
    ∃ text l, a = '-' :: '-' :: text ∧
      longMatch longopts (text.takeWhile (· ≠ '=')) = some (l, i) ∧ l.val = c ∧
      (l.hasArg = true → '=' ∈ text) := by
  unfold scanArgs at h
  split at h
  · cases h
  · next text _ =>
    obtain ⟨l, hmatch, hval, harg⟩ := scanLong_eq_option h
    exact ⟨text, l, rfl, hmatch, hval, fun hl => harg hl rfl⟩
  · cases scanShort_eq_option h
  · cases h

/-- The first two indices are those of elements when there is one argument. -/
theorem passes_of_two (hfew : o.Few) {prog a : List Char} (hlone : ¬ o.Lone [prog, a])
    {found : Found} (hf : found ∈ calls o.optstring o.longopts ⟨[], [a]⟩) : Passes 2 found := by
  match found with
  | .done | .unknown | .option _ _ none => exact trivial
  | .option c optarg (some i) =>
    obtain ⟨text, l, rfl, hmatch, rfl, harg⟩ := scanArgs_eq_option (scanArgs_of_mem_calls hf)
    rcases hfew.index_le (l, i) (longMatch_eq_some hmatch).1 with ⟨hle, hhas⟩ | hval
    · refine .inl ?_
      by_contra hnot
      obtain rfl : i = 2 := by omega
      exact hlone ⟨prog, text, l, rfl, harg hhas, hmatch⟩
    · exact .inr hval

/-! ## The loop -/

/-- For every command line but a lone one, the loop does what it does without its check. -/
theorem parse_of_not_lone (hfew : o.Few) (args : α) (h : ¬ o.Lone argv) :
    o.parse args argv = o.parseUnchecked args argv := by
  have hfold : (calls o.optstring o.longopts ⟨[], argv.tail⟩).foldlM
      (o.handle (argvNull argv.length)) { args } =
        (calls o.optstring o.longopts ⟨[], argv.tail⟩).foldlM
          (o.handle fun _ => .ok false) { args } := by
    match argv, h with
    | [], _ =>
      rw [List.tail_nil, calls_done getoptLong_nil]
      rfl
    | [_], _ =>
      rw [List.tail_cons, calls_done getoptLong_nil]
      rfl
    | [prog, a], h =>
      exact foldlM_handle hfew.help (fun found hf => passes_of_two hfew h hf) Nat.two_pos
    | _ :: _ :: _ :: rest, _ =>
      have hthree : 3 ≤ rest.length + 1 + 1 + 1 := Nat.le_add_left 3 _
      exact foldlM_handle hfew.help (fun found hf => passes_of_three hfew hthree hf)
        (Nat.succ_pos _)
  rw [Options.parse, Options.parseUnchecked, Options.loop, hfold]
  rfl

/-- A lone option with its argument is complained about. -/
theorem parse_of_lone {option : ArgOption α} (args : α) {prog text : List Char} {l : LongOption}
    (hmatch : longMatch o.longopts (text.takeWhile (· ≠ '=')) = some (l, 2)) (heq : '=' ∈ text)
    (hhas : l.hasArg = true) (hoption : o.withArg l.val = some option) :
    o.parse args [prog, '-' :: '-' :: text] = .error (.usageExit [option.missing]) := by
  have hattached : ∃ v, (text.dropWhile (· ≠ '=')).tail? = some v := by
    cases hdrop : text.dropWhile (· ≠ '=') with
    | nil => exact absurd (List.dropWhile_eq_nil_iff.1 hdrop '=' heq) (by simp)
    | cons d v => exact ⟨v, rfl⟩
  obtain ⟨v, hv⟩ := hattached
  have htext : text ≠ [] := List.ne_nil_of_mem heq
  have hscan : getoptLong o.optstring o.longopts ⟨[], ['-' :: '-' :: text]⟩ =
      (.option l.val (some v) (some 2), ⟨[], []⟩) := by
    obtain ⟨d, rest, rfl⟩ := List.exists_cons_of_ne_nil htext
    show scanLong o.longopts (d :: rest) [] = _
    rw [scanLong, hmatch, hv]
    simp [hhas, takeArg]
  have hcalls : calls o.optstring o.longopts ⟨[], ['-' :: '-' :: text]⟩ =
      [.option l.val (some v) (some 2)] := by
    rw [calls_option hscan, calls_done getoptLong_nil]
  rw [Options.parse, Options.loop, List.tail_cons, hcalls, List.foldlM_cons]
  show (o.option (argvNull 2) { args, index := 2 } l.val (some v) >>= _) >>= _ = _
  rw [Options.option, hoption]
  rfl

/-! ## Lone options by their name -/

/-- The start of a name that has no `=` is what stands before the `=`. -/
theorem takeWhile_attached {w : List Char} (v : List Char) (hname : '=' ∉ name) (hw : w <+: name) :
    (w ++ '=' :: v).takeWhile (· ≠ '=') = w := by
  have hpos : ∀ c ∈ w, decide (c ≠ '=') = true :=
    fun c hc => decide_eq_true fun heq => hname (heq ▸ hw.subset hc)
  rw [List.takeWhile_append_of_pos hpos, List.takeWhile_cons_of_neg (by simp), List.append_nil]

/-- The starts of the name, and they only, find the option. -/
theorem Options.Third.longMatch_iff (h : o.Third name complaint) (w : List Char) :
    (∃ l, longMatch o.longopts w = some (l, 2)) ↔ w ≠ [] ∧ w <+: name := by
  constructor
  · rintro ⟨l, hl⟩
    obtain ⟨hmem, hprefix⟩ := longMatch_eq_some hl
    refine ⟨?_, (h.third (l, 2) hmem rfl).1 ▸ hprefix⟩
    rintro rfl
    cases h.empty.symm.trans hl
  · rintro ⟨hne, hprefix⟩
    obtain ⟨⟨l, i⟩, hl, rfl⟩ :=
      Option.map_eq_some_iff.1 (h.inits w ((List.mem_inits w name).2 hprefix) hne)
    exact ⟨l, hl⟩

/-- A lone option of index two is one that is named. -/
theorem Options.Third.lone_iff (h : o.Third name complaint) :
    o.Lone argv ↔ LoneAttached name argv := by
  constructor
  · rintro ⟨prog, text, l, rfl, heq, hlong⟩
    obtain ⟨hne, hprefix⟩ := (h.longMatch_iff _).1 ⟨l, hlong⟩
    have htext := List.takeWhile_append_dropWhile (p := (· ≠ '=')) (l := text)
    cases hdrop : text.dropWhile (· ≠ '=') with
    | nil => exact absurd (List.dropWhile_eq_nil_iff.1 hdrop '=' heq) (by simp)
    | cons d v =>
      have hd : d = '=' := by
        have hnot := List.head?_dropWhile_not (· ≠ '=') text
        rw [hdrop] at hnot
        simpa using hnot
      rw [hdrop, hd] at htext
      exact ⟨prog, _, v, by rw [htext], hne, hprefix⟩
  · rintro ⟨prog, w, v, rfl, hne, hprefix⟩
    obtain ⟨l, hl⟩ := (h.longMatch_iff w).2 ⟨hne, hprefix⟩
    refine ⟨prog, _, l, rfl, by simp, ?_⟩
    rw [takeWhile_attached v h.not_mem hprefix]
    exact hl

/-- A lone option is complained about, and every other command line is read without a check. -/
theorem Options.Third.parsesBut (h : o.Third name complaint) (hfew : o.Few) (args : α)
    (argv : List (List Char)) :
    ParsesBut (o.parse args) (o.parseUnchecked args) name complaint argv := by
  by_cases hlone : LoneAttached name argv
  · obtain ⟨prog, text, l, rfl, heq, hlong⟩ := h.lone_iff.2 hlone
    obtain ⟨-, hhas, hcomplaint⟩ := h.third (l, 2) (longMatch_eq_some hlong).1 rfl
    obtain ⟨option, hoption, hmiss⟩ := Option.map_eq_some_iff.1 hcomplaint
    exact .inl ⟨hlone, hmiss ▸ parse_of_lone args hlong heq hhas hoption⟩
  · exact .inr ⟨hlone, parse_of_not_lone hfew args fun hl => hlone (h.lone_iff.1 hl)⟩

end

end OptionLoop
