import Mathlib.Data.List.TakeWhile
import SchedulerComparison.Lib.Text

/-!
# `std::string`, `std::stoi` and `atoi`

`find` and `substr` of a string, `atoi`, and `std::stoi`, which skips white space, takes a sign and
the longest run of digits, and leaves the rest. `stoi_eq_ok_iff` says what it reads: an `Integer`
after white space, with no digit behind it. An `Integer` is a decimal integer as it is written, with
its sign.
-/

open Text

namespace CxxString

/-! ## Searching and cutting -/

section
variable {α : Type}

/-- The position of the first occurrence of `w`. -/
def index [DecidableEq α] (w : List α) : List α → Option Nat
  | [] => if w = [] then some 0 else none
  | c :: cs => if w <+: c :: cs then some 0 else (index w cs).map (· + 1)

/-- `s.find(w, pos)`; `none` is `std::string::npos`. -/
def find [DecidableEq α] (s w : List α) (pos : Nat) : Option Nat :=
  if pos ≤ s.length then (index w (s.drop pos)).map (pos + ·) else none

/-- `s.substr(pos, n)`; `none` is the exception for a position behind the end. -/
def substr (s : List α) (pos n : Nat) : Option (List α) :=
  if pos ≤ s.length then some ((s.drop pos).take n) else none

theorem substr_of_le {s : List α} {pos : Nat} (h : pos ≤ s.length) (n : Nat) :
    substr s pos n = some ((s.drop pos).take n) := if_pos h

variable [DecidableEq α] {w s : List α} {pos next : Nat}

theorem index_le (h : index w s = some next) : next ≤ s.length := by
  induction s generalizing next with
  | nil =>
    rw [index] at h
    split at h <;> simp_all
  | cons c cs ih =>
    rw [index] at h
    split at h
    · obtain rfl := Option.some.inj h
      exact Nat.zero_le _
    · obtain ⟨n, hn, rfl⟩ := Option.map_eq_some_iff.1 h
      exact Nat.succ_le_succ (ih hn)

/-- What is found is between where the search starts and the end. -/
theorem find_bounds (h : find s w pos = some next) : pos ≤ next ∧ next ≤ s.length := by
  unfold find at h
  split at h
  · obtain ⟨n, hn, rfl⟩ := Option.map_eq_some_iff.1 h
    have := index_le hn
    rw [List.length_drop] at this
    omega
  · cases h

/-- A word that is not empty is found before the end. -/
theorem index_lt (hw : w ≠ []) (h : index w s = some next) : next < s.length := by
  induction s generalizing next with
  | nil =>
    rw [index, if_neg hw] at h
    cases h
  | cons c cs ih =>
    rw [index] at h
    split at h
    · obtain rfl := Option.some.inj h
      exact Nat.succ_pos _
    · obtain ⟨n, hn, rfl⟩ := Option.map_eq_some_iff.1 h
      exact Nat.succ_lt_succ (ih hn)

/-- What is found ends the first piece. -/
theorem cut_of_index (hw : w ≠ []) (h : index w s = some next) :
    cut w s = s.take next :: cut w (s.drop (next + 1)) := by
  induction s generalizing next with
  | nil =>
    rw [index, if_neg hw] at h
    cases h
  | cons c cs ih =>
    rw [index] at h
    split at h
    · next hpre =>
      obtain rfl := Option.some.inj h
      exact cut_cons_of_isPrefix hpre
    · next hpre =>
      obtain ⟨n, hn, rfl⟩ := Option.map_eq_some_iff.1 h
      rw [cut_cons_of_not_isPrefix hpre, ih hn]
      rfl

/-- Where nothing is found, the text is one piece. -/
theorem cut_of_index_eq_none (h : index w s = none) : cut w s = [s] := by
  induction s with
  | nil => rfl
  | cons c cs ih =>
    rw [index] at h
    split at h
    · cases h
    · next hpre =>
      rw [cut_cons_of_not_isPrefix hpre, ih (Option.map_eq_none_iff.1 h)]
      rfl

end

/-! ## Integers as they are written -/

/-- A C `int`. -/
def InRange (i : Int) : Prop := -2 ^ 31 ≤ i ∧ i < 2 ^ 31

instance (i : Int) : Decidable (InRange i) := inferInstanceAs (Decidable (_ ∧ _))

/-- The sign in front of the digits. -/
inductive Sign where
  | none
  | minus
  | plus
  deriving DecidableEq

/-- The text of a sign. -/
def Sign.text : Sign → List Char
  | .none => []
  | .minus => ['-']
  | .plus => ['+']

/-- The number with its sign. -/
def Sign.apply (n : Nat) : Sign → Int
  | .minus => -n
  | _ => n

/-- A decimal integer as it is written. -/
structure Integer where
  sign : Sign
  digits : List Char
  digits_ne_nil : digits ≠ []
  isDigit : ∀ c ∈ digits, c.isDigit = true

namespace Integer

/-- The written integer. -/
def text (w : Integer) : List Char := w.sign.text ++ w.digits

/-- The integer. -/
def value (w : Integer) : Int := w.sign.apply (ofDigits w.digits)

/-- An integer as `std::to_string` and `operator<<` write it. -/
def ofInt (i : Int) : Integer where
  sign := if i < 0 then .minus else .none
  digits := Nat.toDigits 10 i.natAbs
  digits_ne_nil := Nat.toDigits_ne_nil
  isDigit _ hc := Nat.isDigit_of_mem_toDigits (by decide) (by decide) hc

end Integer

theorem ofDigits_toDigits (n : Nat) : ofDigits (Nat.toDigits 10 n) = n := by
  have h := Nat.ofDigitChars_ten_toDigits (n := n)
  rwa [Nat.ofDigitChars_eq_foldl] at h

@[simp] theorem Integer.value_ofInt (i : Int) : (ofInt i).value = i := by
  unfold value ofInt
  rw [ofDigits_toDigits]
  split <;> simp only [Sign.apply] <;> omega

/-- Lean prints an integer in the same way. -/
theorem Integer.text_ofInt (i : Int) : (ofInt i).text = (toString i).toList := by
  cases i with
  | ofNat n =>
    have hn : ¬ ((n : Int) < 0) := by omega
    simp [text, ofInt, Sign.text, toString, Int.repr, hn]
  | negSucc n => simp [text, ofInt, Sign.text, toString, Int.repr, Int.negSucc_lt_zero]

/-- A printed integer, as a decimal number. -/
def Integer.decimal (i : Int) : Decimal where
  neg := i < 0
  whole := (ofInt i).digits
  frac := none
  whole_ne_nil := (ofInt i).digits_ne_nil
  whole_digits := (ofInt i).isDigit
  frac_digits _ h := by cases h

theorem Integer.text_decimal (i : Int) : (decimal i).text = (ofInt i).text := by
  unfold Decimal.text decimal text ofInt
  by_cases h : i < 0 <;> simp [h, Decimal.digits, Sign.text]

theorem Integer.value_decimal (i : Int) : (decimal i).value = i := by
  have hdigits : ofDigits (ofInt i).digits = i.natAbs := ofDigits_toDigits i.natAbs
  unfold Decimal.value Decimal.abs decimal
  rw [hdigits]
  by_cases h : i < 0
  · have hneg : (i.natAbs : Int) = -i := Int.ofNat_natAbs_of_nonpos (Int.le_of_lt h)
    have hcast : ((i.natAbs : Int) : ℚ) = -i := by rw [hneg, Int.cast_neg]
    simpa [h] using neg_eq_iff_eq_neg.2 hcast
  · have hpos : (i.natAbs : Int) = i := Int.natAbs_of_nonneg (Int.not_lt.1 h)
    have hcast : ((i.natAbs : Int) : ℚ) = i := by rw [hpos]
    simpa [h] using hcast

/-- `float(s)` of Python reads an integer that `operator<<` wrote. -/
theorem Integer.numeral_text (i : Int) : numeral (ofInt i).text = some (i : ℚ) := by
  have h := (decimal i).numeral_text 0
  rwa [text_decimal, value_decimal] at h

/-! ## `std::stoi` -/

/-- What `std::stoi` throws. -/
inductive StoiError where
  | invalidArgument
  | outOfRange
  deriving DecidableEq

/-- The sign that a text starts with, and the rest. -/
def takeSign : List Char → Sign × List Char
  | '-' :: cs => (.minus, cs)
  | '+' :: cs => (.plus, cs)
  | cs => (.none, cs)

/-- `std::stoi`: `strtol` to base 10, and the result in an `int`. -/
def stoi (cs : List Char) : Except StoiError Int :=
  let signed := takeSign (cs.dropWhile isSpace)
  let digits := signed.2.takeWhile Char.isDigit
  if digits = [] then .error .invalidArgument
  else if InRange (signed.1.apply (ofDigits digits)) then .ok (signed.1.apply (ofDigits digits))
  else .error .outOfRange

/-- `strtol(s, nullptr, 10)`: `0` for a text that does not start with a number, and the bound of a
64-bit `long` for a number beyond it. -/
def strtol (cs : List Char) : Int :=
  let signed := takeSign (cs.dropWhile isSpace)
  max (-2 ^ 63) (min (2 ^ 63 - 1) (signed.1.apply (ofDigits (signed.2.takeWhile Char.isDigit))))

/-- `atoi`: what `strtol` returns, converted to an `int`. -/
def atoi (cs : List Char) : Int32 := Int32.ofInt (strtol cs)

/-- A digit is no white space. -/
theorem isSpace_of_isDigit {c : Char} (h : c.isDigit = true) : isSpace c = false := by
  refine Bool.eq_false_iff.2 fun hsp => ?_
  simp only [isSpace, Bool.or_eq_true, decide_eq_true_eq] at hsp
  rcases hsp with ((((rfl | rfl) | rfl) | rfl) | rfl) | rfl <;> cases h

/-- The text starts with an `int`, white space before it and anything that is no digit behind
it. -/
def Starts (cs : List Char) (i : Int) : Prop :=
  ∃ (spaces : List Char) (w : Integer) (rest : List Char),
    (∀ c ∈ spaces, isSpace c = true) ∧ (∀ c ∈ rest.head?, c.isDigit = false) ∧
      cs = spaces ++ (w.text ++ rest) ∧ w.value = i ∧ InRange i

/-- The sign of a written integer is taken off. -/
theorem takeSign_text (w : Integer) (rest : List Char) :
    takeSign (w.text ++ rest) = (w.sign, w.digits ++ rest) := by
  unfold Integer.text
  cases h : w.sign with
  | minus => rfl
  | plus => rfl
  | none =>
    obtain ⟨d, ds, hds⟩ := List.exists_cons_of_ne_nil w.digits_ne_nil
    have hd : d.isDigit = true := w.isDigit d (by rw [hds]; exact List.mem_cons_self)
    rw [Sign.text, List.nil_append, hds, List.cons_append]
    unfold takeSign
    split
    · next heq => cases heq; cases hd
    · next heq => cases heq; cases hd
    · rfl

/-- A sign or a digit is no white space. -/
theorem Integer.isSpace_head (w : Integer) (rest : List Char) :
    ∀ c ∈ (w.text ++ rest).head?, isSpace c = false := by
  intro c hc
  unfold Integer.text at hc
  cases h : w.sign with
  | minus =>
    obtain rfl : '-' = c := by simpa [h, Sign.text] using hc
    rfl
  | plus =>
    obtain rfl : '+' = c := by simpa [h, Sign.text] using hc
    rfl
  | none =>
    obtain ⟨d, ds, hds⟩ := List.exists_cons_of_ne_nil w.digits_ne_nil
    obtain rfl : d = c := by simpa [h, Sign.text, hds] using hc
    have hd : d.isDigit = true := w.isDigit d (by rw [hds]; exact List.mem_cons_self)
    exact isSpace_of_isDigit hd

/-- The characters of a written integer. -/
theorem Integer.mem_text {w : Integer} {c : Char} (hc : c ∈ w.text) :
    c = '-' ∨ c = '+' ∨ c.isDigit = true := by
  unfold Integer.text at hc
  rcases List.mem_append.1 hc with hc | hc
  · cases h : w.sign <;> simp_all [Sign.text]
  · exact .inr (.inr (w.isDigit c hc))

/-- What is taken while a test holds ends where it fails. -/
theorem span_append {p : Char → Bool} {a rest : List Char} (ha : ∀ c ∈ a, p c = true)
    (hrest : ∀ c ∈ rest.head?, p c = false) :
    (a ++ rest).takeWhile p = a ∧ (a ++ rest).dropWhile p = rest := by
  rw [List.takeWhile_append_of_pos ha, List.dropWhile_append_of_pos ha]
  cases rest with
  | nil => simp
  | cons c rest =>
    have hc : p c = false := hrest c rfl
    simp [hc]

/-- The sign and the rest make up the text. -/
theorem text_takeSign (cs : List Char) : (takeSign cs).1.text ++ (takeSign cs).2 = cs := by
  unfold takeSign
  split <;> rfl

/-- `std::stoi` reads exactly what a text starts with. -/
theorem stoi_eq_ok_iff (cs : List Char) (i : Int) : stoi cs = .ok i ↔ Starts cs i := by
  constructor
  · intro h
    unfold stoi at h
    dsimp only at h
    split at h
    · cases h
    next hne =>
    split at h
    · next hrange =>
      have hi := Except.ok.inj h
      let w : Integer :=
        ⟨(takeSign (cs.dropWhile isSpace)).1, _, hne, fun c hc => (List.mem_takeWhile_imp hc)⟩
      refine ⟨cs.takeWhile isSpace, w, (takeSign (cs.dropWhile isSpace)).2.dropWhile Char.isDigit,
        fun c hc => List.mem_takeWhile_imp hc, ?_, ?_, hi, hi ▸ hrange⟩
      · intro c hc
        have := List.head?_dropWhile_not Char.isDigit (takeSign (cs.dropWhile isSpace)).2
        rw [Option.mem_def.1 hc] at this
        exact this
      · rw [Integer.text, List.append_assoc, List.takeWhile_append_dropWhile, text_takeSign,
          List.takeWhile_append_dropWhile]
    · cases h
  · rintro ⟨spaces, w, rest, hspaces, hrest, rfl, rfl, hrange⟩
    have hdrop := (span_append hspaces (w.isSpace_head rest)).2
    have htake := (span_append w.isDigit hrest).1
    unfold stoi
    dsimp only
    rw [hdrop, takeSign_text, htake, if_neg w.digits_ne_nil]
    exact if_pos hrange

/-- `atoi` reads an `int` that is written. -/
theorem atoi_text {w : Integer} (h : InRange w.value) : atoi w.text = Int32.ofInt w.value := by
  have hspace : w.text.dropWhile isSpace = w.text := by
    have hhead := w.isSpace_head []
    rw [List.append_nil] at hhead
    exact (span_append (a := []) (by simp) hhead).2
  have hsign : takeSign w.text = (w.sign, w.digits) := by
    simpa using takeSign_text w []
  have hdigits : w.digits.takeWhile Char.isDigit = w.digits :=
    List.takeWhile_eq_self_iff.2 w.isDigit
  have hclamp : strtol w.text = max (-2 ^ 63) (min (2 ^ 63 - 1) w.value) := by
    simp only [strtol, hspace, hsign, hdigits, Integer.value]
  obtain ⟨hlow, hhigh⟩ := h
  rw [atoi, hclamp, min_eq_right (by omega), max_eq_right (by omega)]

/-- `atoi` reads back what `std::to_string` writes. -/
theorem atoi_toString {i : Int} (h : InRange i) : atoi (toString i).toList = Int32.ofInt i := by
  have hvalue := Integer.value_ofInt i
  rw [← Integer.text_ofInt, atoi_text (hvalue.symm ▸ h), hvalue]

/-- A text starts with one `int` only. -/
theorem Starts.det {cs : List Char} {i j : Int} (hi : Starts cs i) (hj : Starts cs j) : i = j :=
  Except.ok.inj (((stoi_eq_ok_iff cs i).2 hi).symm.trans ((stoi_eq_ok_iff cs j).2 hj))

/-- A written integer behind spaces is what the text starts with. -/
theorem starts_text (k : Nat) {w : Integer} (h : InRange w.value) :
    Starts (List.replicate k ' ' ++ w.text) w.value := by
  refine ⟨List.replicate k ' ', w, [], fun c hc => ?_, by simp, by simp, rfl, h⟩
  rw [List.eq_of_mem_replicate hc]
  rfl

end CxxString
