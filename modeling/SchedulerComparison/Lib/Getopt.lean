import Mathlib.Algebra.GroupWithZero.Nat
import Mathlib.Data.List.Infix
import Mathlib.Data.List.TakeWhile

/-!
# `getopt_long`

`getopt_long` as it is documented: short options, one or more behind a dash, long options behind two
dashes, with the name in full or a prefix of one name only, an argument in the same element or in
the next one, `--` as the end of the options, and elements that are no options passed over. An
option without argument has none in `optarg`; optional arguments are left out.
-/

namespace Getopt

/-- `struct option`, with no flag: the character to return is `val`. -/
structure LongOption where
  name : List Char
  hasArg : Bool
  val : Char
  deriving DecidableEq

/-- What is not scanned yet: the rest of a cluster of short options, and the elements behind it. -/
structure Scan where
  nextchar : List Char
  args : List (List Char)

/-- What a call returns and stores. -/
inductive Found where
  /-- `-1`. -/
  | done
  /-- `'?'`. -/
  | unknown
  /-- The character of an option, `optarg`, and the index in `longopts`, stored for a long option
  only. -/
  | option (val : Char) (optarg : Option (List Char)) (longindex : Option Nat)

/-- Whether a character is an option, and whether it takes an argument. -/
def shortOption (optstring : List Char) (c : Char) : Option Bool :=
  if c = ':' then none
  else match optstring.dropWhile (· ≠ c) with
    | [] => none
    | _ :: ':' :: _ => some true
    | _ :: _ => some false

/-- The required argument of an option: what is attached to it, or the next element. -/
def takeArg (val : Char) (longindex : Option Nat) :
    Option (List Char) → List (List Char) → Found × Scan
  | some optarg, args => (.option val (some optarg) longindex, ⟨[], args⟩)
  | none, optarg :: args => (.option val (some optarg) longindex, ⟨[], args⟩)
  | none, [] => (.unknown, ⟨[], []⟩)

/-- A short option with the rest of its cluster. -/
def scanShort (optstring : List Char) (c : Char) (rest : List Char) (args : List (List Char)) :
    Found × Scan :=
  match shortOption optstring c with
  | none => (.unknown, ⟨rest, args⟩)
  | some false => (.option c none none, ⟨rest, args⟩)
  | some true => takeArg c none (if rest = [] then none else some rest) args

/-- The entry with this name, or the only one that starts with it. -/
def longMatch (longopts : List LongOption) (name : List Char) : Option (LongOption × Nat) :=
  match longopts.zipIdx.find? fun o => o.1.name = name with
  | some o => some o
  | none =>
    match longopts.zipIdx.filter fun o => name <+: o.1.name with
    | [] => none
    | o :: os =>
      if os.all fun o' => o'.1.hasArg = o.1.hasArg ∧ o'.1.val = o.1.val then some o else none

/-- A long option, given what is behind its dashes. -/
def scanLong (longopts : List LongOption) (text : List Char) (args : List (List Char)) :
    Found × Scan :=
  let attached := (text.dropWhile (· ≠ '=')).tail?
  match longMatch longopts (text.takeWhile (· ≠ '=')) with
  | none => (.unknown, ⟨[], args⟩)
  | some (o, i) =>
    if o.hasArg then takeArg o.val (some i) attached args
    else if attached.isSome then (.unknown, ⟨[], args⟩)
    else (.option o.val none (some i), ⟨[], args⟩)

/-- The next option of the elements that are left. -/
def scanArgs (optstring : List Char) (longopts : List LongOption) :
    List (List Char) → Found × Scan
  | [] => (.done, ⟨[], []⟩)
  | a :: args =>
    match a with
    | ['-', '-'] => (.done, ⟨[], args⟩)
    | '-' :: '-' :: text => scanLong longopts text args
    | '-' :: c :: rest => scanShort optstring c rest args
    | _ => scanArgs optstring longopts args

/-- `getopt_long(argc, argv, optstring, longopts, &longindex)`. -/
def getoptLong (optstring : List Char) (longopts : List LongOption) (s : Scan) : Found × Scan :=
  match s.nextchar with
  | [] => scanArgs optstring longopts s.args
  | c :: rest => scanShort optstring c rest s.args

/-! ## Every option takes something away -/

/-- The number of characters left, and of elements. -/
def Scan.size (s : Scan) : Nat := s.nextchar.length + (s.args.map (·.length + 1)).sum

section
variable {optstring : List Char} {longopts : List LongOption}

theorem size_takeArg (val : Char) (longindex : Option Nat) (attached : Option (List Char))
    (args : List (List Char)) :
    (takeArg val longindex attached args).2.size ≤ (args.map (·.length + 1)).sum := by
  unfold takeArg
  split <;> simp [Scan.size]

theorem size_scanShort (c : Char) (rest : List Char) (args : List (List Char)) :
    (scanShort optstring c rest args).2.size ≤ rest.length + (args.map (·.length + 1)).sum := by
  unfold scanShort
  split
  · exact le_refl _
  · exact le_refl _
  · exact le_trans (size_takeArg ..) (Nat.le_add_left _ _)

theorem size_scanLong (text : List Char) (args : List (List Char)) :
    (scanLong longopts text args).2.size ≤ (args.map (·.length + 1)).sum := by
  unfold scanLong
  dsimp only
  split
  · simp [Scan.size]
  · split
    · exact size_takeArg ..
    · split <;> simp [Scan.size]

theorem size_scanArgs (args : List (List Char)) :
    (scanArgs optstring longopts args).1 = .done ∨
      (scanArgs optstring longopts args).2.size < (args.map (·.length + 1)).sum := by
  induction args with
  | nil => exact .inl rfl
  | cons a args ih =>
    unfold scanArgs
    split
    · exact .inl rfl
    · next text _ =>
      have := @size_scanLong longopts text args
      exact .inr (by rw [List.map_cons, List.sum_cons]; omega)
    · next c rest _ _ =>
      have := @size_scanShort optstring c rest args
      exact .inr (by rw [List.map_cons, List.sum_cons, List.length_cons, List.length_cons]; omega)
    · exact ih.imp_right fun h => by rw [List.map_cons, List.sum_cons]; omega

/-- A call that does not end the scan takes something away. -/
theorem size_getoptLong (s : Scan) :
    (getoptLong optstring longopts s).1 = .done ∨
      (getoptLong optstring longopts s).2.size < s.size := by
  obtain ⟨nextchar, args⟩ := s
  cases nextchar with
  | nil => simpa [getoptLong, Scan.size] using size_scanArgs args
  | cons c rest =>
    refine .inr (Nat.lt_of_le_of_lt (size_scanShort c rest args) ?_)
    simp [Scan.size]

/-- What the calls find, one after the other, up to the one that returns `-1`. -/
def calls (optstring : List Char) (longopts : List LongOption) (s : Scan) : List Found :=
  match _h : getoptLong optstring longopts s with
  | (.done, _) => []
  | (.unknown, s') => .unknown :: calls optstring longopts s'
  | (.option c optarg longindex, s') =>
    .option c optarg longindex :: calls optstring longopts s'
termination_by s.size
decreasing_by
  all_goals
    have hsize := @size_getoptLong optstring longopts s
    rw [_h] at hsize
    simpa using hsize

theorem calls_done {s s' : Scan} (h : getoptLong optstring longopts s = (.done, s')) :
    calls optstring longopts s = [] := by
  unfold calls
  split <;> simp_all

theorem calls_option {s s' : Scan} {c : Char} {optarg : Option (List Char)}
    {longindex : Option Nat}
    (h : getoptLong optstring longopts s = (.option c optarg longindex, s')) :
    calls optstring longopts s = .option c optarg longindex :: calls optstring longopts s' := by
  rw [calls]
  split
  · simp_all
  · simp_all
  · next h' =>
    rw [h] at h'
    cases h'
    rfl

/-- What is found is found by a call, at a point of the scan that the calls before have led to. -/
theorem exists_of_mem_calls {I : Scan → Prop} {s : Scan} {found : Found}
    (hstep : ∀ s, I s → I (getoptLong optstring longopts s).2) (hs : I s)
    (hf : found ∈ calls optstring longopts s) :
    ∃ s', I s' ∧ (getoptLong optstring longopts s').1 = found := by
  fun_induction calls optstring longopts s with
  | case1 => cases hf
  | case2 s s' h ih =>
    have hs' := hstep s hs
    rw [h] at hs'
    rcases List.mem_cons.1 hf with rfl | hf
    · exact ⟨s, hs, congrArg Prod.fst h⟩
    · exact ih hs' hf
  | case3 s c optarg longindex s' h ih =>
    have hs' := hstep s hs
    rw [h] at hs'
    rcases List.mem_cons.1 hf with rfl | hf
    · exact ⟨s, hs, congrArg Prod.fst h⟩
    · exact ih hs' hf

/-! ## The index of a long option -/

/-- A name finds an entry that it is the start of. -/
theorem longMatch_eq_some {name : List Char} {o : LongOption} {i : Nat}
    (h : longMatch longopts name = some (o, i)) : (o, i) ∈ longopts.zipIdx ∧ name <+: o.name := by
  unfold longMatch at h
  split at h
  · next found hfind =>
    cases h
    have hname := List.find?_some hfind
    exact ⟨List.mem_of_find?_eq_some hfind, (decide_eq_true_iff.1 hname).symm ▸ List.prefix_rfl⟩
  · split at h
    · cases h
    · next found rest hfilter =>
      split at h <;> cases h
      have hmem : (o, i) ∈ longopts.zipIdx.filter fun o => name <+: o.1.name := by
        rw [hfilter]
        exact List.mem_cons_self
      obtain ⟨hin, hprefix⟩ := List.mem_filter.1 hmem
      exact ⟨hin, decide_eq_true_iff.1 hprefix⟩

/-- A required argument is attached, or the next element. -/
theorem takeArg_eq_option {val c : Char} {longindex li : Option Nat}
    {attached optarg : Option (List Char)} {args : List (List Char)}
    (h : (takeArg val longindex attached args).1 = .option c optarg li) :
    c = val ∧ li = longindex ∧ (attached = none → args ≠ []) := by
  unfold takeArg at h
  split at h <;> cases h
  · exact ⟨rfl, rfl, fun h => by cases h⟩
  · exact ⟨rfl, rfl, fun _ => List.cons_ne_nil _ _⟩

/-- A short option has no index. -/
theorem scanShort_eq_option {c c' : Char} {rest : List Char} {args : List (List Char)}
    {optarg : Option (List Char)} {li : Option Nat}
    (h : (scanShort optstring c rest args).1 = .option c' optarg li) : li = none := by
  unfold scanShort at h
  split at h
  · cases h
  · cases h
    rfl
  · exact (takeArg_eq_option h).2.1

/-- A long option has the index of an entry with its name. Where it is the last element, its
argument is attached. -/
theorem scanLong_eq_option {text : List Char} {args : List (List Char)} {c : Char}
    {optarg : Option (List Char)} {i : Nat}
    (h : (scanLong longopts text args).1 = .option c optarg (some i)) :
    ∃ o, longMatch longopts (text.takeWhile (· ≠ '=')) = some (o, i) ∧ o.val = c ∧
      (o.hasArg = true → args = [] → '=' ∈ text) := by
  unfold scanLong at h
  dsimp only at h
  split at h
  · cases h
  · next o j hmatch =>
    split at h
    · obtain ⟨rfl, heq, harg⟩ := takeArg_eq_option h
      cases heq
      refine ⟨o, hmatch, rfl, fun _ hargs => ?_⟩
      by_contra hno
      refine harg ?_ hargs
      have hdrop : text.dropWhile (· ≠ '=') = [] :=
        List.dropWhile_eq_nil_iff.2 fun d hd => decide_eq_true fun heq => hno (heq ▸ hd)
      rw [hdrop]
      rfl
    · next hnone =>
      split at h <;> cases h
      exact ⟨o, hmatch, rfl, fun harg => absurd harg hnone⟩

/-- The index that a call stores is that of an entry with the character it returns. -/
theorem getoptLong_eq_option {s : Scan} {c : Char} {optarg : Option (List Char)} {i : Nat}
    (h : (getoptLong optstring longopts s).1 = .option c optarg (some i)) :
    ∃ o, (o, i) ∈ longopts.zipIdx ∧ o.val = c := by
  obtain ⟨nextchar, args⟩ := s
  cases nextchar with
  | cons d rest => cases scanShort_eq_option h
  | nil =>
    change (scanArgs optstring longopts args).1 = _ at h
    induction args with
    | nil => cases h
    | cons a args ih =>
      unfold scanArgs at h
      split at h
      · cases h
      · obtain ⟨o, hmatch, hval, -⟩ := scanLong_eq_option h
        exact ⟨o, (longMatch_eq_some hmatch).1, hval⟩
      · cases scanShort_eq_option h
      · exact ih h

/-! ## Options with their argument in the next element -/

variable {v : List Char} {args : List (List Char)}

theorem getoptLong_nil : getoptLong optstring longopts ⟨[], []⟩ = (.done, ⟨[], []⟩) := rfl

/-- `-c v`. -/
theorem getoptLong_short {c : Char} (hc : c ≠ '-') (h : shortOption optstring c = some true) :
    getoptLong optstring longopts ⟨[], ['-', c] :: v :: args⟩ =
      (.option c (some v) none, ⟨[], args⟩) := by
  have hscan : scanArgs optstring longopts (['-', c] :: v :: args) =
      scanShort optstring c [] (v :: args) := by
    unfold scanArgs
    split <;> simp_all
  rw [getoptLong, hscan, scanShort, h]
  rfl

/-- `-c`, of an option without argument. -/
theorem getoptLong_flag {c : Char} (hc : c ≠ '-') (h : shortOption optstring c = some false) :
    getoptLong optstring longopts ⟨[], ['-', c] :: args⟩ = (.option c none none, ⟨[], args⟩) := by
  have hscan : scanArgs optstring longopts (['-', c] :: args) =
      scanShort optstring c [] args := by
    unfold scanArgs
    split <;> simp_all
  rw [getoptLong, hscan, scanShort, h]

/-- `--name v`. -/
theorem getoptLong_long {name : List Char} {o : LongOption} {i : Nat} (hne : name ≠ [])
    (heq : '=' ∉ name) (h : longMatch longopts name = some (o, i)) (harg : o.hasArg = true) :
    getoptLong optstring longopts ⟨[], ('-' :: '-' :: name) :: v :: args⟩ =
      (.option o.val (some v) (some i), ⟨[], args⟩) := by
  have hscan : scanArgs optstring longopts (('-' :: '-' :: name) :: v :: args) =
      scanLong longopts name (v :: args) := by
    obtain ⟨c, text, rfl⟩ := List.exists_cons_of_ne_nil hne
    rfl
  have hchars : ∀ c ∈ name, decide (c ≠ '=') = true := by
    intro c hc
    exact decide_eq_true fun h => heq (h ▸ hc)
  have htake : name.takeWhile (· ≠ '=') = name := List.takeWhile_eq_self_iff.2 hchars
  have hdrop : name.dropWhile (· ≠ '=') = [] := List.dropWhile_eq_nil_iff.2 hchars
  rw [getoptLong, hscan, scanLong, htake, hdrop, h]
  simp [harg, takeArg]

end

/-! ## Handling what is found -/

section
variable {ε α β : Type}

/-- What a step of an `Except` computation returned. -/
theorem bind_eq_ok {x : Except ε α} {f : α → Except ε β} {b : β}
    (h : (x >>= f) = .ok b) : ∃ a, x = .ok a ∧ f a = .ok b := by
  cases x with
  | ok a => exact ⟨a, rfl, h⟩
  | error e => cases h

/-- What every step of a loop that may stop keeps holds where the loop ends. -/
theorem foldlM_invariant {f : α → β → Except ε α} {I : α → Prop} {a a' : α} {l : List β}
    (hstep : ∀ a b a', I a → f a b = .ok a' → I a') (h0 : I a) (h : l.foldlM f a = .ok a') :
    I a' := by
  induction l generalizing a with
  | nil =>
    cases h
    exact h0
  | cons b l ih =>
    rw [List.foldlM_cons] at h
    obtain ⟨a₁, h₁, h⟩ := bind_eq_ok h
    exact ih (hstep a b a₁ h0 h₁) h

end

end Getopt
