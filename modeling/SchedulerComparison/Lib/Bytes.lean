import Mathlib.Algebra.Group.Nat.Defs

/-!
# Integers in memory

The bytes of an integer as they lie in memory, the least significant first. What was written of a
64-bit integer is read back from all of its bytes (`toInt64_int64`).
-/

namespace Bytes

/-- The `k` low bytes of a number. -/
def low : ℕ → ℕ → List UInt8
  | 0, _ => []
  | k + 1, n => UInt8.ofNat n :: low k (n / 256)

/-- The number that bytes make. -/
def value : List UInt8 → ℕ
  | [] => 0
  | b :: bs => b.toNat + 256 * value bs

/-- The bytes of an `int64_t`. -/
def int64 (x : BitVec 64) : List UInt8 := low 8 x.toNat

/-- The `int64_t` that bytes make. -/
def toInt64 (bs : List UInt8) : BitVec 64 := BitVec.ofNat 64 (value bs)

@[simp] theorem length_low (k n : ℕ) : (low k n).length = k := by
  induction k generalizing n with
  | zero => rfl
  | succ k ih => rw [low, List.length_cons, ih]

theorem value_low (k n : ℕ) : value (low k n) = n % 256 ^ k := by
  induction k generalizing n with
  | zero => exact (Nat.mod_one n).symm
  | succ k ih =>
    have hbyte : (UInt8.ofNat n).toNat = n % 256 := UInt8.toNat_ofNat
    rw [low, value, ih, hbyte, Nat.pow_succ, Nat.mul_comm (256 ^ k), Nat.mod_mul]

@[simp] theorem length_int64 (x : BitVec 64) : (int64 x).length = 8 := length_low 8 _

/-- An integer is read back from its bytes. -/
theorem toInt64_int64 (x : BitVec 64) : toInt64 (int64 x) = x := by
  have hlt : x.toNat < 256 ^ 8 := x.isLt
  rw [toInt64, int64, value_low, Nat.mod_eq_of_lt hlt, BitVec.ofNat_toNat, BitVec.setWidth_eq]

end Bytes
