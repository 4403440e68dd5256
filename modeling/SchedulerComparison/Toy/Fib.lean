import Mathlib.Data.Nat.Fib.Basic
import Mathlib.Tactic.NormNum.NatFib
import SchedulerComparison.Lib.CxxString

/-!
# The toy program

`toy/fib.cpp` computes a Fibonacci number by plain recursion, in 64 bits, and prints it as a signed
number. `main_eq` says what the program does with its arguments: it refuses a number below `1`, and
otherwise it prints the Fibonacci number modulo `2^64` as an `int64_t`, which is the number itself
up to the 92nd and another one from the 93rd on (`printed_eq_iff`).
-/

open CxxString

namespace Fib

/-- `fib(n)` (`fib.cpp:8`), when at most `depth` calls can be nested. -/
def fib : Nat → Int → Option UInt64
  | 0, _ => none
  | depth + 1, n =>
    if n = 1 then some 1
    else if n = 2 then some 1
    else do
      let a ← fib depth (n - 1)
      let b ← fib depth (n - 2)
      return a + b

/-- What the program prints. The measured time is left out of its line. -/
inductive Out where
  | expected
  | atLeastOne (n : Int)
  | failedToPin (core : Int)
  | pinned (core : Int)
  | computing (n : Int)
  | number (n fibNum : Int)
  | fibLog (n : Int)
  deriving DecidableEq

/-- `main` (`fib.cpp:18`): what it prints, and its status. `pins` tells whether `sched_setaffinity`
succeeds for a core; where the calls of `fib` cannot be nested, there is no end of the program. -/
def main (pins : Int → Bool) (depth : Nat) : List (List Char) → Option (List Out × Int)
  | [_, number, core] =>
    let n := (atoi number).toInt
    if n ≤ 0 then some ([.atLeastOne n], -1)
    else
      let coreToPin := (atoi core).toInt
      if 0 ≤ coreToPin ∧ pins coreToPin = false then some ([.failedToPin coreToPin], -1)
      else do
        let fibNum ← fib depth n
        return ((if 0 ≤ coreToPin then [.pinned coreToPin] else []) ++
          [.computing n, .number n fibNum.toInt64.toInt, .fibLog n], 0)
  | _ => some ([.expected], -1)

/-- What is printed for the `n`-th Fibonacci number. -/
def printed (n : Nat) : Int := (UInt64.ofNat n.fib).toInt64.toInt

section
variable {depth n : Nat} {i : Int} {v : UInt64}

/-- Below `1` the recursion does not end. -/
theorem fib_of_nonpos (depth : Nat) (h : i ≤ 0) : fib depth i = none := by
  induction depth generalizing i with
  | zero => rfl
  | succ depth ih =>
    rw [fib, if_neg (by omega), if_neg (by omega), ih (by omega)]
    rfl

/-- The `n`-th number takes `n - 1` nested calls, and one at least. -/
theorem fib_of_lt (h : depth + 1 < n) : fib depth n = none := by
  induction depth generalizing n with
  | zero => rfl
  | succ depth ih =>
    have hprev : ((n : Int) - 1) = ((n - 1 : Nat) : Int) := by omega
    rw [fib, if_neg (by omega), if_neg (by omega), hprev, ih (by omega)]
    rfl

/-- With these, the recursion gives the number in 64 bits. -/
theorem fib_of_le (hn : 1 ≤ n) (hd : 1 ≤ depth) (h : n ≤ depth + 1) :
    fib depth n = some (UInt64.ofNat n.fib) := by
  induction depth generalizing n with
  | zero => exact absurd hd (by decide)
  | succ depth ih =>
    rw [fib]
    match n, hn with
    | 1, _ => rfl
    | 2, _ => rfl
    | m + 3, _ =>
      have hone : ((m + 3 : Nat) : Int) - 1 = ((m + 2 : Nat) : Int) := by omega
      have htwo : ((m + 3 : Nat) : Int) - 2 = ((m + 1 : Nat) : Int) := by omega
      have hsum : UInt64.ofNat (m + 3).fib =
          UInt64.ofNat (m + 2).fib + UInt64.ofNat (m + 1).fib := by
        rw [← UInt64.ofNat_add, Nat.fib_add_two (n := m + 1), Nat.add_comm]
      rw [if_neg (by omega), if_neg (by omega), hone, htwo, ih (by omega) (by omega) (by omega),
        ih (by omega) (by omega) (by omega), hsum]
      rfl

/-- `fib` returns where its argument is positive and its calls can be nested. -/
theorem fib_eq_some_iff :
    fib depth i = some v ↔
      1 ≤ i ∧ 1 ≤ depth ∧ i ≤ depth + 1 ∧ v = UInt64.ofNat i.toNat.fib := by
  constructor
  · intro h
    have hpos : 1 ≤ i := by
      by_contra hneg
      rw [fib_of_nonpos depth (by omega)] at h
      cases h
    obtain ⟨n, rfl⟩ := Int.eq_ofNat_of_zero_le (by omega : 0 ≤ i)
    have hle : n ≤ depth + 1 := by
      by_contra hlt
      rw [fib_of_lt (Nat.not_le.1 hlt)] at h
      cases h
    have hd : 1 ≤ depth := by
      cases depth with
      | zero => cases h
      | succ depth => exact Nat.le_add_left 1 depth
    rw [fib_of_le (by omega) hd hle] at h
    cases h
    exact ⟨hpos, hd, by omega, rfl⟩
  · rintro ⟨hpos, hd, hle, rfl⟩
    obtain ⟨n, rfl⟩ := Int.eq_ofNat_of_zero_le (by omega : 0 ≤ i)
    exact fib_of_le (by omega) hd (by omega)

/-- The number is printed as it is up to the 92nd. -/
theorem printed_eq_iff : printed n = n.fib ↔ n ≤ 92 := by
  constructor
  · intro h
    by_contra hlt
    have hlarge : Nat.fib 93 ≤ n.fib := Nat.fib_mono (Nat.not_le.1 hlt)
    have hbound : (2 : Nat) ^ 63 ≤ Nat.fib 93 := by norm_num
    have hlt : printed n < 2 ^ 63 := Int64.toInt_lt _
    omega
  · intro h
    have hsmall : n.fib ≤ Nat.fib 92 := Nat.fib_mono h
    have hbound : Nat.fib 92 < 2 ^ 63 := by norm_num
    rw [printed, UInt64.toInt64_ofNat']
    exact Int64.toInt_ofNat_of_lt (hsmall.trans_lt hbound)

/-- What the program does with two arguments, when the recursion fits into its stack. -/
theorem main_eq (pins : Int → Bool) (prog number core : List Char)
    (hd : 1 ≤ depth) (hn : (atoi number).toInt ≤ depth + 1) :
    main pins depth [prog, number, core] =
      if (atoi number).toInt ≤ 0 then some ([.atLeastOne (atoi number).toInt], -1)
      else if 0 ≤ (atoi core).toInt ∧ pins (atoi core).toInt = false then
        some ([.failedToPin (atoi core).toInt], -1)
      else
        some ((if 0 ≤ (atoi core).toInt then [.pinned (atoi core).toInt] else []) ++
          [.computing (atoi number).toInt,
            .number (atoi number).toInt (printed (atoi number).toInt.toNat),
            .fibLog (atoi number).toInt], 0) := by
  simp only [main]
  split
  · rfl
  · next hpos =>
    have hfib : fib depth (atoi number).toInt =
        some (UInt64.ofNat (atoi number).toInt.toNat.fib) :=
      fib_eq_some_iff.2 ⟨by omega, hd, hn, rfl⟩
    rw [hfib]
    rfl

example : main (fun _ => true) 6 ["fib".toList, "7".toList, "0".toList] =
    some ([.pinned 0, .computing 7, .number 7 13, .fibLog 7], 0) := by decide

end

end Fib
