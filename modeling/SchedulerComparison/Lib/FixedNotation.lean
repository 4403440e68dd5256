import Mathlib.Algebra.Order.Round
import Mathlib.Data.Rat.Floor
import SchedulerComparison.Lib.CxxString

/-!
# Numbers in fixed notation

`fixed p x` is what `std::fixed` with `std::setprecision(p)` prints of `x`: the number of units
`10⁻ᵖ` nearest to `x`, with a point before its last `p` digits. A number that is a whole number of
these units is printed exactly (`value_fixed`).
-/

open CxxString

namespace Text

/-- Digits in front of digits. -/
theorem ofDigits_append (a b : List Char) :
    ofDigits (a ++ b) = ofDigits a * 10 ^ b.length + ofDigits b := by
  induction b using List.reverseRecOn with
  | nil => simp [ofDigits]
  | append_singleton b c ih =>
    have hsnoc : ∀ ds : List Char,
        ofDigits (ds ++ [c]) = 10 * ofDigits ds + (c.toNat - '0'.toNat) := by
      intro ds
      simp only [ofDigits, List.foldl_append, List.foldl_cons, List.foldl_nil]
    rw [← List.append_assoc, hsnoc, hsnoc, ih, List.length_append, List.length_singleton, pow_succ]
    ring

theorem ofDigits_replicate_zero (k : Nat) : ofDigits (List.replicate k '0') = 0 := by
  induction k with
  | zero => rfl
  | succ k ih =>
    rw [List.replicate_succ', ofDigits_append, ih]
    rfl

/-- `n` in `p` digits. -/
def padded (p n : Nat) : List Char :=
  List.replicate (p - (Nat.toDigits 10 n).length) '0' ++ Nat.toDigits 10 n

theorem ofDigits_padded (p n : Nat) : ofDigits (padded p n) = n := by
  rw [padded, ofDigits_append, ofDigits_replicate_zero, ofDigits_toDigits, Nat.zero_mul,
    Nat.zero_add]

theorem length_padded {p n : Nat} (hp : 0 < p) (h : n < 10 ^ p) : (padded p n).length = p := by
  have hle := (Nat.length_toDigits_le_iff (by decide) hp).2 h
  rw [padded, List.length_append, List.length_replicate, Nat.sub_add_cancel hle]

theorem isDigit_of_mem_toDigits {n : Nat} {c : Char} (hc : c ∈ Nat.toDigits 10 n) :
    c.isDigit = true := Nat.isDigit_of_mem_toDigits (by decide) (by decide) hc

theorem isDigit_of_mem_padded {p n : Nat} {c : Char} (hc : c ∈ padded p n) : c.isDigit = true := by
  rcases List.mem_append.1 hc with hc | hc
  · rw [List.eq_of_mem_replicate hc]
    rfl
  · exact isDigit_of_mem_toDigits hc

/-- The units `10⁻ᵖ` in a number, to the nearest. -/
def units (p : Nat) (x : ℚ) : Nat := (round (|x| * 10 ^ p)).toNat

theorem isDigit_of_mem_frac {p n : Nat} {f : List Char} {c : Char}
    (hf : f ∈ if p = 0 then none else some (padded p n)) (hc : c ∈ f) : c.isDigit = true := by
  obtain ⟨-, hf⟩ := Option.ite_none_left_eq_some.1 (Option.mem_def.1 hf)
  exact isDigit_of_mem_padded (Option.some.inj hf ▸ hc)

/-- A number in fixed notation with `p` decimals; there is no point without decimals. -/
def fixed (p : Nat) (x : ℚ) : Decimal where
  neg := x < 0
  whole := Nat.toDigits 10 (units p x / 10 ^ p)
  frac := if p = 0 then none else some (padded p (units p x % 10 ^ p))
  whole_ne_nil := Nat.toDigits_ne_nil
  whole_digits _ hc := isDigit_of_mem_toDigits hc
  frac_digits _ hf _ hc := isDigit_of_mem_frac hf hc

/-- What is printed without its sign is the number of units. -/
theorem abs_fixed (p : Nat) (x : ℚ) : (fixed p x).abs = units p x / 10 ^ p := by
  by_cases hp : p = 0
  · subst hp
    simp [Decimal.abs, fixed, ofDigits_toDigits]
  · have hlen := length_padded (Nat.pos_of_ne_zero hp)
      (Nat.mod_lt (units p x) (Nat.pow_pos (n := p) (by decide : 0 < 10)))
    simp only [Decimal.abs, fixed, if_neg hp, hlen]
    rw [ofDigits_append, ofDigits_toDigits, ofDigits_padded, hlen, Nat.div_add_mod']

/-- A whole number of units is printed exactly. -/
theorem value_fixed {p : Nat} {x : ℚ} {n : ℤ} (h : x * 10 ^ p = n) : (fixed p x).value = x := by
  have hpow : (0 : ℚ) < 10 ^ p := by positivity
  have habs : |x| * 10 ^ p = (|n| : ℤ) := by
    rw [Int.cast_abs, ← h, abs_mul, abs_of_pos hpow]
  have hunits : (units p x : ℚ) = |x| * 10 ^ p := by
    rw [units, habs, round_intCast, ← Int.cast_natCast, Int.toNat_of_nonneg (abs_nonneg n)]
  have hvalue : (fixed p x).abs = |x| := by
    rw [abs_fixed, hunits, mul_div_assoc, div_self hpow.ne', mul_one]
  rw [Decimal.value, hvalue, fixed]
  by_cases hx : x < 0
  · simp [hx, abs_of_neg hx]
  · simp [hx, abs_of_nonneg (not_lt.1 hx)]

/-- A third of a millisecond, to three decimals. -/
example : (fixed 3 (-1 / 3)).text = "-0.333".toList := by decide +kernel

end Text
