import SchedulerComparison.Launcher.GroupRange

/-!
# Short and long options

A command line of pairs of an option and its value, each spelled `-g v` or `--groups v`.
`spelled_exactly`: `parse_args` returns the same for every spelling, the last value given for each
field, except when the only pair is `--file v` or `--hack v`. The index of the last long option is
what the check for a missing argument reads `argv` at, and on a line of one pair the indices of
`file` and `hack` in the table of long options are not those of an argument.
-/

open CxxString Getopt

namespace Launcher

/-- What an option with a value of the right form asks for. -/
inductive Setting where
  | groups (n : Int)
  | groupRange (lo hi step : Int)
  | pin (core : Int)
  | reps (n : Int)
  | file (path : List Char)
  | hack (path : List Char)

namespace Setting

/-- The index of the option in `longopts`. -/
def longindex : Setting → Nat
  | .groups _ | .groupRange _ _ _ => 0
  | .pin _ => 1
  | .reps _ => 2
  | .file _ => 3
  | .hack _ => 4

/-- The option's entry in `longopts`. -/
def longopt (s : Setting) : LongOption := longopts.getD s.longindex ⟨[], true, '?'⟩

/-- A decimal `int`. -/
def Writes (v : List Char) (n : Int) : Prop := ∃ w : Integer, v = w.text ∧ w.value = n ∧ IsInt n

/-- The value is written so. -/
def IsText : Setting → List Char → Prop
  | .groups n, v | .pin n, v | .reps n, v => Writes v n
  | .groupRange lo hi step, v => RangeText v lo hi step
  | .file path, v | .hack path, v => v = path

/-- The fields with the setting. -/
def apply : Setting → Args → Args
  | .groups n, args => { args with groupsLowerBound := n, groupsUpperBound := n }
  | .groupRange lo hi step, args =>
    { args with groupsLowerBound := lo, groupsUpperBound := hi, groupsStepSize := step }
  | .pin core, args => { args with coreToPinTo := core }
  | .reps n, args => { args with reps := n }
  | .file path, args => { args with fileName := String.ofList path, fileValid := true }
  | .hack path, args => { args with hackbenchAbsPath := String.ofList path }

/-- It is a path. -/
def IsPath : Setting → Prop
  | .file _ | .hack _ => True
  | _ => False

/-- The lower bound that a setting gives, and so on for the other fields. -/
def lowerBound? : Setting → Option Int
  | .groups n => some n
  | .groupRange lo _ _ => some lo
  | _ => none

def upperBound? : Setting → Option Int
  | .groups n => some n
  | .groupRange _ hi _ => some hi
  | _ => none

def stepSize? : Setting → Option Int
  | .groupRange _ _ step => some step
  | _ => none

def core? : Setting → Option Int
  | .pin core => some core
  | _ => none

def reps? : Setting → Option Int
  | .reps n => some n
  | _ => none

def fileName? : Setting → Option String
  | .file path => some (String.ofList path)
  | _ => none

def hackbench? : Setting → Option String
  | .hack path => some (String.ofList path)
  | _ => none

end Setting

/-- The last value that is given for a field, or its default. -/
def lastOf {α : Type} (field? : Setting → Option α) (default : α) (settings : List Setting) : α :=
  (settings.filterMap field?).getLastD default

/-- Each field has the last value that is given for it. -/
def expectedArgs (settings : List Setting) : Args where
  groupsLowerBound := lastOf Setting.lowerBound? 1 settings
  groupsUpperBound := lastOf Setting.upperBound? 1 settings
  groupsStepSize := lastOf Setting.stepSize? 1 settings
  coreToPinTo := lastOf Setting.core? (-1) settings
  reps := lastOf Setting.reps? 1 settings
  fileName := lastOf Setting.fileName? "" settings
  fileValid := lastOf (fun s => s.fileName?.map fun _ => true) false settings
  hackbenchAbsPath := lastOf Setting.hackbench? "hackbench" settings

/-- An option with its value, and how it is spelled. -/
structure Pair where
  setting : Setting
  text : List Char
  isText : setting.IsText text
  long : Bool

/-- `-g v` or `--groups v`. -/
def Pair.argv (p : Pair) : List (List Char) :=
  [if p.long then '-' :: '-' :: p.setting.longopt.name else ['-', p.setting.longopt.val], p.text]

/-- The command line of some pairs. -/
def commandLine (prog : List Char) (pairs : List Pair) : List (List Char) :=
  prog :: pairs.flatMap Pair.argv

/-- A single pair, `--file v` or `--hack v`. -/
def LoneLongPath : List Pair → Prop
  | [p] => p.long = true ∧ p.setting.IsPath
  | _ => False

/-! ## The last value of each field -/

section
variable {α : Type} {field? : Setting → Option α} {default : α} {settings : List Setting}

theorem lastOf_concat (s : Setting) :
    lastOf field? default (settings ++ [s]) =
      (field? s).getD (lastOf field? default settings) := by
  cases h : field? s <;> simp [lastOf, h]

/-- One more setting changes what it gives. -/
theorem expectedArgs_concat (s : Setting) :
    expectedArgs (settings ++ [s]) = s.apply (expectedArgs settings) := by
  cases s <;> simp only [expectedArgs, lastOf_concat] <;> rfl

/-- Applying the settings one after the other leaves the last values. -/
theorem foldl_apply (settings : List Setting) :
    settings.foldl (fun args s => s.apply args) {} = expectedArgs settings := by
  induction settings using List.reverseRecOn with
  | nil => rfl
  | append_singleton settings s ih => rw [List.foldl_concat, ih, expectedArgs_concat]

end

/-! ## The loop on a command line of pairs -/

section
variable {argc : Nat} {p : Parse}

theorem parseInt_of_writes {v : List Char} {n : Int} (h : Setting.Writes v n) :
    parseInt v = .ok n := by
  obtain ⟨w, rfl, rfl, hint⟩ := h
  exact parseInt_of_starts (starts_text 0 hint)

/-- Where `argv[optind]` is an argument, the setting is applied. -/
theorem parseOption_setting {s : Setting} {v : List Char} (hv : s.IsText v)
    (h : p.optind < argc) :
    parseOption argc s.longopt.val (some v) p = .ok { p with args := s.apply p.args } := by
  cases s with
  | groups n =>
    obtain ⟨w, rfl, rfl, hint⟩ := hv
    show optionWithArg argc (some w.text) setGroups p = _
    rw [optionWithArg_of_lt h, setGroups_integer hint]
    rfl
  | groupRange lo hi step =>
    show optionWithArg argc (some v) setGroups p = _
    rw [optionWithArg_of_lt h, setGroups_rangeText hv]
    rfl
  | pin core =>
    show optionWithArg argc (some v) setPin p = _
    rw [optionWithArg_of_lt h, setPin, parseInt_of_writes hv]
    rfl
  | reps n =>
    show optionWithArg argc (some v) setReps p = _
    rw [optionWithArg_of_lt h, setReps, parseInt_of_writes hv]
    rfl
  | file path =>
    obtain rfl : v = path := hv
    show optionWithArg argc (some v) setFile p = _
    rw [optionWithArg_of_lt h]
    rfl
  | hack path =>
    obtain rfl : v = path := hv
    show optionWithArg argc (some v) setHack p = _
    rw [optionWithArg_of_lt h]
    rfl

/-- Every long option has one of five indices. -/
theorem Setting.longindex_lt (s : Setting) : s.longindex < 5 := by
  cases s <;> simp [longindex]

theorem Setting.getElem?_longindex (s : Setting) : longopts[s.longindex]? = some s.longopt := by
  cases s <;> rfl

/-- The options with an argument: their characters are those of the short options, and their names
are found in full. -/
theorem longopts_spec : ∀ i < 5, ∀ o, longopts[i]? = some o →
    o.val ≠ '-' ∧ shortOption optstring o.val = some true ∧ o.name ≠ [] ∧ '=' ∉ o.name ∧
      longMatch longopts o.name = some (o, i) ∧ o.hasArg = true := by
  intro i hi o ho
  have hall : ∀ j : Fin 5, ∀ o ∈ longopts[j.1]?,
      o.val ≠ '-' ∧ shortOption optstring o.val = some true ∧ o.name ≠ [] ∧ '=' ∉ o.name ∧
        longMatch longopts o.name = some (o, j.1) ∧ o.hasArg = true := by decide
  exact hall ⟨i, hi⟩ o ho

/-- The index that `getopt_long` stores for a pair. -/
def Pair.longindex? (pair : Pair) : Option Nat :=
  if pair.long then some pair.setting.longindex else none

/-- `getopt_long` finds the pair in either spelling, and stores an index for the long one. -/
theorem getoptLong_pair (pair : Pair) (rest : List (List Char)) :
    getoptLong optstring longopts ⟨[], pair.argv ++ rest⟩ =
      (.option pair.setting.longopt.val (some pair.text) pair.longindex?, ⟨[], rest⟩) := by
  obtain ⟨hdash, hshort, hne, heq, hlong, harg⟩ := longopts_spec _ pair.setting.longindex_lt _
    pair.setting.getElem?_longindex
  unfold Pair.argv Pair.longindex?
  split
  · exact getoptLong_long hne heq hlong harg
  · exact getoptLong_short hdash hshort

/-- The loop on one pair. -/
theorem parseLoop_pair (pair : Pair) (rest : List (List Char)) :
    parseLoop argc p ⟨[], pair.argv ++ rest⟩ =
      parseOption argc pair.setting.longopt.val (some pair.text)
          { p with optind := pair.longindex?.getD p.optind } >>=
        fun p => parseLoop argc p ⟨[], rest⟩ :=
  parseLoop_option (getoptLong_pair pair rest)

/-- The loop on pairs whose indices are those of arguments applies their settings. -/
theorem parseLoop_pairs {pairs : List Pair} (h : p.optind < argc)
    (hindex : ∀ pair ∈ pairs, ∀ i ∈ pair.longindex?, i < argc) :
    ∃ optind, parseLoop argc p ⟨[], pairs.flatMap Pair.argv⟩ = .ok { p with
      args := (pairs.map Pair.setting).foldl (fun args s => s.apply args) p.args
      optind := optind } := by
  induction pairs generalizing p with
  | nil => exact ⟨p.optind, parseLoop_done getoptLong_nil⟩
  | cons pair pairs ih =>
    have hlt : pair.longindex?.getD p.optind < argc := by
      cases hi : pair.longindex? with
      | none => exact h
      | some i => exact hindex pair List.mem_cons_self i hi
    obtain ⟨optind, hloop⟩ := ih (p := { p with
        args := pair.setting.apply p.args, optind := pair.longindex?.getD p.optind }) hlt
      fun q hq => hindex q (List.mem_cons_of_mem pair hq)
    refine ⟨optind, ?_⟩
    rw [List.flatMap_cons, parseLoop_pair, parseOption_setting pair.isText hlt]
    exact hloop

end

/-! ## The theorem -/

theorem length_commandLine (prog : List Char) (pairs : List Pair) :
    (commandLine prog pairs).length = 1 + 2 * pairs.length := by
  induction pairs with
  | nil => rfl
  | cons pair pairs ih =>
    simp only [commandLine, List.flatMap_cons, List.length_cons, List.length_append] at ih ⊢
    simp only [Pair.argv, List.length_cons, List.length_nil]
    omega

/-- Except for a single path in long spelling, the indices are those of arguments. -/
theorem longindex_lt_length {pairs : List Pair} (h : ¬ LoneLongPath pairs) (prog : List Char) :
    ∀ pair ∈ pairs, ∀ i ∈ pair.longindex?, i < (commandLine prog pairs).length := by
  intro pair hmem i hi
  rw [length_commandLine]
  unfold Pair.longindex? at hi
  split at hi
  case isFalse => cases hi
  case isTrue hlong =>
    obtain rfl := Option.some.inj hi
    match pairs with
    | [] => cases hmem
    | [q] =>
      obtain rfl := List.mem_singleton.1 hmem
      have hpath : ¬ pair.setting.IsPath := fun hpath => h ⟨hlong, hpath⟩
      cases hs : pair.setting <;> simp_all [Setting.longindex, Setting.IsPath]
    | _ :: _ :: _ =>
      have := pair.setting.longindex_lt
      simp only [List.length_cons]
      omega

/-- A command line of one pair. -/
theorem parseArgs_singleton (prog : List Char) (pair : Pair) :
    parseArgs (commandLine prog [pair]) =
      parseOption 3 pair.setting.longopt.val (some pair.text)
          { optind := pair.longindex?.getD 0 } >>=
        fun p => if p.error then .error .usageExit else .ok p.args := by
  have hloop := @parseLoop_pair 3 {} pair []
  rw [List.append_nil] at hloop
  rw [parseArgs, length_commandLine, commandLine, List.tail_cons, List.flatMap_singleton]
  simp only [List.length_cons, List.length_nil, Nat.reduceAdd, Nat.reduceMul, hloop, bind_assoc]
  refine congrArg _ (funext fun p => ?_)
  rw [parseLoop_done getoptLong_nil]
  rfl

/-- `--file v` alone is taken for an option without its argument. -/
theorem parseArgs_lone_file (prog : List Char) {pair : Pair} {path : List Char}
    (hlong : pair.long = true) (hs : pair.setting = .file path) :
    parseArgs (commandLine prog [pair]) = .error .usageExit := by
  rw [parseArgs_singleton, Pair.longindex?, if_pos hlong, hs]
  rfl

/-- `--hack v` alone is checked behind the end of `argv`. -/
theorem parseArgs_lone_hack (prog : List Char) {pair : Pair} {path : List Char}
    (hlong : pair.long = true) (hs : pair.setting = .hack path) :
    parseArgs (commandLine prog [pair]) = .error .undefined := by
  rw [parseArgs_singleton, Pair.longindex?, if_pos hlong, hs]
  rfl

theorem LoneLongPath.exists_eq {pairs : List Pair} (h : LoneLongPath pairs) :
    ∃ pair, pairs = [pair] ∧ pair.long = true ∧ pair.setting.IsPath := by
  cases pairs with
  | nil => exact h.elim
  | cons pair rest =>
    cases rest with
    | nil => exact ⟨pair, rfl, h⟩
    | cons _ _ => exact h.elim

/-- A single path in long spelling is not accepted. -/
theorem parseArgs_of_loneLongPath (prog : List Char) {pairs : List Pair} (h : LoneLongPath pairs) :
    ∃ e, parseArgs (commandLine prog pairs) = .error e := by
  obtain ⟨pair, rfl, hlong, hpath⟩ := h.exists_eq
  cases hs : pair.setting with
  | file path => exact ⟨_, parseArgs_lone_file prog hlong hs⟩
  | hack path => exact ⟨_, parseArgs_lone_hack prog hlong hs⟩
  | groups _ | groupRange _ _ _ | pin _ | reps _ =>
    rw [hs] at hpath
    exact hpath.elim

/-- Every other command line of pairs is accepted. -/
theorem parseArgs_commandLine (prog : List Char) {pairs : List Pair} (h : ¬ LoneLongPath pairs) :
    parseArgs (commandLine prog pairs) = .ok (expectedArgs (pairs.map Pair.setting)) := by
  have hpos : 0 < (commandLine prog pairs).length := by rw [length_commandLine]; omega
  obtain ⟨optind, hloop⟩ := parseLoop_pairs (p := {}) hpos (longindex_lt_length h prog)
  rw [foldl_apply] at hloop
  show (parseLoop (commandLine prog pairs).length {} ⟨[], pairs.flatMap Pair.argv⟩ >>= _) = _
  rw [hloop]
  rfl

/-- `parse_args` returns the last value given for each field, in every spelling, exactly when the
command line is no single path in long spelling. -/
theorem spelled_exactly (prog : List Char) (pairs : List Pair) :
    parseArgs (commandLine prog pairs) = .ok (expectedArgs (pairs.map Pair.setting)) ↔
      ¬ LoneLongPath pairs := by
  constructor
  · intro hok hlone
    obtain ⟨e, he⟩ := parseArgs_of_loneLongPath prog hlone
    cases he.symm.trans hok
  · exact parseArgs_commandLine prog

/-- `--file out` alone. -/
def loneFile : Pair where
  setting := .file "out".toList
  text := "out".toList
  isText := rfl
  long := true

/-- `-f out` is accepted, and `--file out` is not. -/
theorem lone_file_rejected :
    parseArgs (commandLine [] [loneFile]) = .error .usageExit ∧
      parseArgs (commandLine [] [{ loneFile with long := false }]) =
        .ok { fileName := "out", fileValid := true } := by
  refine ⟨parseArgs_lone_file [] rfl rfl, ?_⟩
  rw [parseArgs_singleton]
  rfl

end Launcher
