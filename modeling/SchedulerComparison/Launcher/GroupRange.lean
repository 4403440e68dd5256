import SchedulerComparison.Launcher.Split

/-!
# The group range of `-g`

`-g` takes a number of groups or a range `(lo,hi,step)`. `group_range_read`: a range that is written
as such is read as written, and so is a single number. `range_exactly` says which arguments that
start with a parenthesis are handled safely: the last character is removed whatever it is, the
pieces between the commas are not counted, and `std::stoi` ignores what is behind a number.
-/

open CxxString

namespace Launcher

/-! ## The pieces of a range -/

/-- The pieces of a range: between its commas, without the first and the last character. -/
def pieces (v : List Char) : List (List Char) := (v.drop 1).dropLast.splitOn ','

/-- `std::stoi(tup[i])`. -/
def readAt (ps : List (List Char)) (i : Nat) : Except ParseStop Int := do
  parseInt (← vectorAt ps i)

/-- A range is read from its first three pieces, in their order. -/
theorem setGroups_paren (w : List Char) (args : Args) :
    setGroups ('(' :: w) args = do
      let lower ← readAt (pieces ('(' :: w)) 0
      let upper ← readAt (pieces ('(' :: w)) 1
      let step ← readAt (pieces ('(' :: w)) 2
      return { args with
        groupsLowerBound := lower, groupsUpperBound := upper, groupsStepSize := step } := by
  have hsub : parseSubstr ('(' :: w) 1 (sizeSubTwo ('(' :: w).length) = .ok w.dropLast := by
    rw [parseSubstr, substr_of_le (by simp)]
    cases w with
    | nil => rfl
    | cons c w => simp [sizeSubTwo, List.dropLast_eq_take]
  rw [setGroups, List.head?_cons, if_pos rfl, hsub]
  show (stringToVecByDelim w.dropLast [','] >>= _) = _
  rw [stringToVecByDelim_eq]
  show _ = (readAt (w.dropLast.splitOn ',') 0 >>= _)
  simp only [readAt, bind_assoc]
  rfl

/-! ## Reading the pieces -/

/-- `std::stoi` reads the text. -/
def Readable (p : List Char) : Prop := ∃ i, Starts p i

theorem parseInt_of_starts {p : List Char} {i : Int} (h : Starts p i) : parseInt p = .ok i := by
  rw [parseInt, (stoi_eq_ok_iff p i).2 h]
  rfl

theorem parseInt_of_not_readable {p : List Char} (h : ¬ Readable p) :
    ∃ e, parseInt p = .error (.stoiThrows e) := by
  cases hp : stoi p with
  | ok i => exact absurd ⟨i, (stoi_eq_ok_iff p i).1 hp⟩ h
  | error e => exact ⟨e, by rw [parseInt, hp]; rfl⟩

theorem readAt_of_starts {ps : List (List Char)} {i : Nat} {p : List Char} {n : Int}
    (hp : ps[i]? = some p) (h : Starts p n) : readAt ps i = .ok n := by
  simp only [readAt, vectorAt, hp]
  exact parseInt_of_starts h

theorem readAt_of_not_readable {ps : List (List Char)} {i : Nat} {p : List Char}
    (hp : ps[i]? = some p) (h : ¬ Readable p) : ∃ e, readAt ps i = .error (.stoiThrows e) := by
  simp only [readAt, vectorAt, hp]
  exact parseInt_of_not_readable h

theorem readAt_of_le {ps : List (List Char)} {i : Nat} (h : ps.length ≤ i) :
    readAt ps i = .error .undefined := by
  simp only [readAt, vectorAt, List.getElem?_eq_none h]
  rfl

/-- The three ways a range is handled: a piece that cannot be read stops the program; else fewer
than three pieces are read past their end; else the first three give the fields. -/
theorem setGroups_cases (w : List Char) (args : Args) :
    (∃ p ∈ (pieces ('(' :: w)).take 3, ¬ Readable p) ∧
        (∃ e, setGroups ('(' :: w) args = .error (.stoiThrows e)) ∨
      (∀ p ∈ (pieces ('(' :: w)).take 3, Readable p) ∧ (pieces ('(' :: w)).length < 3 ∧
        setGroups ('(' :: w) args = .error .undefined ∨
      ∃ p₀ p₁ p₂ rest lo hi step, pieces ('(' :: w) = p₀ :: p₁ :: p₂ :: rest ∧
        Starts p₀ lo ∧ Starts p₁ hi ∧ Starts p₂ step ∧
        setGroups ('(' :: w) args = .ok { args with
          groupsLowerBound := lo, groupsUpperBound := hi, groupsStepSize := step } := by
  rw [setGroups_paren]
  generalize pieces ('(' :: w) = ps
  match ps with
  | [] =>
    exact .inr (.inl ⟨by simp, by simp, by rw [readAt_of_le (Nat.zero_le _)]; rfl⟩)
  | p₀ :: ps =>
  by_cases h₀ : Readable p₀
  case neg =>
    obtain ⟨e, he⟩ := readAt_of_not_readable (show (p₀ :: ps)[0]? = some p₀ from rfl) h₀
    exact .inl ⟨⟨p₀, by simp, h₀⟩, e, by rw [he]; rfl⟩
  obtain ⟨lo, hlo⟩ := h₀
  rw [readAt_of_starts (show (p₀ :: ps)[0]? = some p₀ from rfl) hlo]
  match ps with
  | [] =>
    refine .inr (.inl ⟨by simpa using ⟨lo, hlo⟩, by simp, ?_⟩)
    rw [readAt_of_le (i := 1) (by simp)]
    rfl
  | p₁ :: ps =>
  by_cases h₁ : Readable p₁
  case neg =>
    obtain ⟨e, he⟩ := readAt_of_not_readable (show (p₀ :: p₁ :: ps)[1]? = some p₁ from rfl) h₁
    exact .inl ⟨⟨p₁, by simp, h₁⟩, e, by rw [he]; rfl⟩
  obtain ⟨hi, hhi⟩ := h₁
  rw [readAt_of_starts (show (p₀ :: p₁ :: ps)[1]? = some p₁ from rfl) hhi]
  match ps with
  | [] =>
    refine .inr (.inl ⟨by simpa using ⟨⟨lo, hlo⟩, hi, hhi⟩, by simp, ?_⟩)
    rw [readAt_of_le (i := 2) (by simp)]
    rfl
  | p₂ :: rest =>
  by_cases h₂ : Readable p₂
  case neg =>
    obtain ⟨e, he⟩ := readAt_of_not_readable
      (show (p₀ :: p₁ :: p₂ :: rest)[2]? = some p₂ from rfl) h₂
    exact .inl ⟨⟨p₂, by simp, h₂⟩, e, by rw [he]; rfl⟩
  obtain ⟨step, hstep⟩ := h₂
  rw [readAt_of_starts (show (p₀ :: p₁ :: p₂ :: rest)[2]? = some p₂ from rfl) hstep]
  exact .inr (.inr ⟨p₀, p₁, p₂, rest, lo, hi, step, rfl, hlo, hhi, hstep, rfl⟩)

/-! ## Ranges -/

/-- Three integers with commas between them, and spaces behind a comma. -/
def rangeBody (w₁ w₂ w₃ : List Char) (k l : Nat) : List Char :=
  w₁ ++ ',' :: (List.replicate k ' ' ++ w₂ ++ ',' :: (List.replicate l ' ' ++ w₃))

/-- Three written integers in the range of an `int`, with commas between them, spaces behind a
comma, and parentheses around them. -/
def RangeText (v : List Char) (lo hi step : Int) : Prop :=
  ∃ (w₁ w₂ w₃ : Integer) (k l : Nat),
    v = '(' :: (rangeBody w₁.text w₂.text w₃.text k l ++ [')']) ∧
      (w₁.value = lo ∧ IsInt lo) ∧ (w₂.value = hi ∧ IsInt hi) ∧ (w₃.value = step ∧ IsInt step)

/-- There is no comma in a written integer and the spaces before it. -/
theorem comma_not_mem (k : Nat) (w : Integer) : ',' ∉ List.replicate k ' ' ++ w.text := by
  intro hmem
  rcases List.mem_append.1 hmem with hmem | hmem
  · cases List.eq_of_mem_replicate hmem
  · rcases w.mem_text hmem with h | h | h <;> cases h

/-- The pieces of a range are its integers. -/
theorem RangeText.pieces {v : List Char} {lo hi step : Int} (h : RangeText v lo hi step) :
    ∃ p₀ p₁ p₂, Launcher.pieces v = [p₀, p₁, p₂] ∧
      Starts p₀ lo ∧ Starts p₁ hi ∧ Starts p₂ step := by
  obtain ⟨w₁, w₂, w₃, k, l, rfl, ⟨rfl, h₁⟩, ⟨rfl, h₂⟩, ⟨rfl, h₃⟩⟩ := h
  have hw₁ : ',' ∉ w₁.text := by simpa using comma_not_mem 0 w₁
  refine ⟨w₁.text, List.replicate k ' ' ++ w₂.text, List.replicate l ' ' ++ w₃.text, ?_,
    starts_text 0 h₁, starts_text k h₂, starts_text l h₃⟩
  rw [Launcher.pieces, List.drop_one, List.tail_cons, List.dropLast_concat, rangeBody,
    List.splitOn_append_cons_self_of_not_mem hw₁,
    List.splitOn_append_cons_self_of_not_mem (comma_not_mem k w₂),
    List.splitOn_eq_singleton (comma_not_mem l w₃)]

/-- A range is read as it is written. -/
theorem setGroups_rangeText {v : List Char} {lo hi step : Int} (h : RangeText v lo hi step)
    (args : Args) :
    setGroups v args = .ok { args with
      groupsLowerBound := lo, groupsUpperBound := hi, groupsStepSize := step } := by
  obtain ⟨p₀, p₁, p₂, hp, h₀, h₁, h₂⟩ := h.pieces
  obtain ⟨w₁, w₂, w₃, k, l, rfl, -⟩ := h
  rw [setGroups_paren, hp, readAt_of_starts (i := 0) rfl h₀, readAt_of_starts (i := 1) rfl h₁,
    readAt_of_starts (i := 2) rfl h₂]
  rfl

/-- A single number sets both bounds. -/
theorem setGroups_integer {w : Integer} (h : IsInt w.value) (args : Args) :
    setGroups w.text args =
      .ok { args with groupsLowerBound := w.value, groupsUpperBound := w.value } := by
  have hhead : w.text.head? ≠ some '(' := by
    intro hhead
    have hmem : '(' ∈ w.text := List.mem_of_mem_head? hhead
    rcases w.mem_text hmem with h | h | h <;> cases h
  have hstarts : Starts w.text w.value := starts_text 0 h
  rw [setGroups, if_neg hhead, parseInt_of_starts hstarts]
  rfl

/-! ## A range is read as written -/

/-- `(lo,hi,step)` in decimal, with spaces behind the commas. -/
def writtenRange (lo hi step : Int) (k l : Nat) : List Char :=
  '(' :: (rangeBody (toString lo).toList (toString hi).toList (toString step).toList k l ++ [')'])

theorem rangeText_writtenRange {lo hi step : Int} (hlo : IsInt lo) (hhi : IsInt hi)
    (hstep : IsInt step) (k l : Nat) : RangeText (writtenRange lo hi step k l) lo hi step := by
  refine ⟨.ofInt lo, .ofInt hi, .ofInt step, k, l, ?_, ?_, ?_, ?_⟩
  · simp only [writtenRange, Integer.text_ofInt]
  · exact ⟨Integer.value_ofInt lo, hlo⟩
  · exact ⟨Integer.value_ofInt hi, hhi⟩
  · exact ⟨Integer.value_ofInt step, hstep⟩

/-- A number in decimal sets both bounds. -/
theorem setGroups_toString {n : Int} (h : IsInt n) (args : Args) :
    setGroups (toString n).toList args =
      .ok { args with groupsLowerBound := n, groupsUpperBound := n } := by
  have hset := setGroups_integer (w := .ofInt n) (by rwa [Integer.value_ofInt]) args
  rwa [Integer.text_ofInt, Integer.value_ofInt] at hset

/-- `-g (lo,hi,step)` sets the three fields and `-g n` both bounds, wherever the check for a missing
argument lets it pass, and on a command line of its own. -/
theorem group_range_read (lo hi step n : Int) (hlo : IsInt lo) (hhi : IsInt hi) (hstep : IsInt step)
    (hn : IsInt n) (k l : Nat) :
    (∀ (argc : Nat) (p : Parse) (rest : List (List Char)), p.optind < argc →
      parseLoop argc p ⟨[], ['-', 'g'] :: writtenRange lo hi step k l :: rest⟩ =
          parseLoop argc { p with args := { p.args with
            groupsLowerBound := lo, groupsUpperBound := hi, groupsStepSize := step } } ⟨[], rest⟩ ∧
        parseLoop argc p ⟨[], ['-', 'g'] :: (toString n).toList :: rest⟩ =
          parseLoop argc { p with args := { p.args with
            groupsLowerBound := n, groupsUpperBound := n } } ⟨[], rest⟩) ∧
      ∀ prog : List Char,
        parseArgs [prog, ['-', 'g'], writtenRange lo hi step k l] =
            .ok { groupsLowerBound := lo, groupsUpperBound := hi, groupsStepSize := step } ∧
          parseArgs [prog, ['-', 'g'], (toString n).toList] =
            .ok { groupsLowerBound := n, groupsUpperBound := n } := by
  have hrange := rangeText_writtenRange hlo hhi hstep k l
  refine ⟨fun argc p rest hlt => ⟨?_, ?_⟩, fun prog => ⟨?_, ?_⟩⟩
  · rw [parseLoop_groups hlt, setGroups_rangeText hrange]
    rfl
  · rw [parseLoop_groups hlt, setGroups_toString hn]
    rfl
  · rw [parseArgs_groups, setGroups_rangeText hrange]
  · rw [parseArgs_groups, setGroups_toString hn]

/-- The extremes. -/
theorem group_range_read_extremes :
    parseArgs [[], ['-', 'g'], writtenRange (-2147483648) 2147483647 (-1) 0 2] =
        .ok { groupsLowerBound := -2147483648, groupsUpperBound := 2147483647,
              groupsStepSize := -1 } ∧
      parseArgs [[], ['-', 'g'], (toString (-5 : Int)).toList] =
        .ok { groupsLowerBound := -5, groupsUpperBound := -5 } :=
  (group_range_read (-2147483648) 2147483647 (-1) (-5) (by decide) (by decide) (by decide)
    (by decide) 0 2).2 []

/-! ## What a malformed range does -/

/-- `parse_args` handles the range safely: it stops with the usage text or an exception of
`std::stoi`, or the argument is a range and the three fields are set to what is written. -/
def ReadsRange (v : List Char) (args : Args) : Except ParseStop Args → Prop
  | .ok args' => ∃ lo hi step, RangeText v lo hi step ∧
      args' = { args with groupsLowerBound := lo, groupsUpperBound := hi, groupsStepSize := step }
  | .error .usageExit | .error (.stoiThrows _) => True
  | .error .substrThrows | .error .undefined => False

/-- It is a range, or one of the first three pieces does not start with an `int`. -/
def SafeRange (v : List Char) : Prop :=
  (∃ lo hi step, RangeText v lo hi step) ∨ ∃ p ∈ (pieces v).take 3, ¬ Readable p

theorem readsRange_setGroups_iff (w : List Char) (args : Args) :
    ReadsRange ('(' :: w) args (setGroups ('(' :: w) args) ↔ SafeRange ('(' :: w) := by
  rcases setGroups_cases w args with ⟨hbad, e, he⟩ | ⟨hall, hlen, he⟩ |
    ⟨p₀, p₁, p₂, rest, lo, hi, step, hp, h₀, h₁, h₂, he⟩
  · rw [he]
    exact iff_of_true trivial (.inr hbad)
  · rw [he]
    refine iff_of_false id ?_
    rintro (⟨lo, hi, step, hrange⟩ | ⟨p, hp, hbad⟩)
    · obtain ⟨p₀, p₁, p₂, hp, -⟩ := hrange.pieces
      rw [hp] at hlen
      exact absurd hlen (by simp)
    · exact hbad (hall p hp)
  · rw [he]
    constructor
    · rintro ⟨lo', hi', step', hrange, -⟩
      exact .inl ⟨lo', hi', step', hrange⟩
    · rintro (⟨lo', hi', step', hrange⟩ | ⟨p, hmem, hbad⟩)
      · obtain ⟨q₀, q₁, q₂, hq, k₀, k₁, k₂⟩ := hrange.pieces
        rw [hp] at hq
        cases hq
        rw [h₀.det k₀, h₁.det k₁, h₂.det k₂]
        exact ⟨lo', hi', step', hrange, rfl⟩
      · -- the first three pieces were read
        rw [hp] at hmem
        have : p = p₀ ∨ p = p₁ ∨ p = p₂ := by simpa using hmem
        rcases this with rfl | rfl | rfl
        · exact absurd ⟨lo, h₀⟩ hbad
        · exact absurd ⟨hi, h₁⟩ hbad
        · exact absurd ⟨step, h₂⟩ hbad

/-- An argument that starts with a parenthesis is handled safely exactly when it is a range or one
of its first three pieces cannot be read. -/
theorem range_exactly (prog w : List Char) (args : Args) :
    (ReadsRange ('(' :: w) args (setGroups ('(' :: w) args) ↔ SafeRange ('(' :: w)) ∧
      (ReadsRange ('(' :: w) {} (parseArgs [prog, ['-', 'g'], '(' :: w]) ↔
        SafeRange ('(' :: w)) := by
  rw [parseArgs_groups]
  exact ⟨readsRange_setGroups_iff w args, readsRange_setGroups_iff w {}⟩

/-- A range ends with a parenthesis. -/
theorem RangeText.getLast? {v : List Char} {lo hi step : Int} (h : RangeText v lo hi step) :
    v.getLast? = some ')' := by
  obtain ⟨w₁, w₂, w₃, k, l, rfl, -⟩ := h
  rw [← List.cons_append, List.getLast?_concat]

/-- `(1,2)` has no third piece, and `(1,2,34` loses its last digit. -/
theorem range_misread :
    parseArgs [[], ['-', 'g'], "(1,2)".toList] = .error .undefined ∧
      parseArgs [[], ['-', 'g'], "(1,2,34".toList] =
        .ok { groupsLowerBound := 1, groupsUpperBound := 2, groupsStepSize := 3 } ∧
      ¬ ReadsRange "(1,2)".toList {} (parseArgs [[], ['-', 'g'], "(1,2)".toList]) ∧
      ¬ ReadsRange "(1,2,34".toList {} (parseArgs [[], ['-', 'g'], "(1,2,34".toList]) := by
  have hshort : parseArgs [[], ['-', 'g'], "(1,2)".toList] = .error .undefined := by
    rw [parseArgs_groups]
    exact setGroups_paren ['1', ',', '2', ')'] {}
  have hopen : parseArgs [[], ['-', 'g'], "(1,2,34".toList] =
      .ok { groupsLowerBound := 1, groupsUpperBound := 2, groupsStepSize := 3 } := by
    rw [parseArgs_groups]
    exact setGroups_paren ['1', ',', '2', ',', '3', '4'] {}
  refine ⟨hshort, hopen, ?_, ?_⟩
  · rw [hshort]
    exact id
  · rw [hopen]
    rintro ⟨lo, hi, step, hrange, -⟩
    cases hrange.getLast?

end Launcher
