import Mathlib.Algebra.Ring.Nat
import Mathlib.Tactic.Ring

/-!
# Little-endian bytes

A number of `8 * k` bits as a list of `k` bytes, the least significant one first.
-/

namespace LittleEndian

/-- The lowest `k` bytes of a number. -/
def toBytes : ℕ → ℕ → List UInt8
  | 0, _ => []
  | k + 1, n => UInt8.ofNat (n % 256) :: toBytes k (n / 256)

def ofBytes : List UInt8 → ℕ
  | [] => 0
  | b :: bs => b.toNat + 256 * ofBytes bs

@[simp]
lemma length_toBytes (k n : ℕ) : (toBytes k n).length = k := by
  induction k generalizing n with
  | zero => rfl
  | succ k ih => simp [toBytes, ih]

lemma ofBytes_toBytes {k n : ℕ} (h : n < 256 ^ k) : ofBytes (toBytes k n) = n := by
  induction k generalizing n with
  | zero =>
    rw [pow_zero, Nat.lt_one_iff] at h
    rw [h]
    rfl
  | succ k ih =>
    have hdiv : n / 256 < 256 ^ k := by
      rw [Nat.div_lt_iff_lt_mul (by norm_num)]
      rwa [pow_succ] at h
    have hbyte : (UInt8.ofNat (n % 256)).toNat = n % 256 := by simp
    rw [toBytes, ofBytes, ih hdiv, hbyte]
    omega

end LittleEndian
