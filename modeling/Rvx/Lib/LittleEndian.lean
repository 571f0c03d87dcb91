import Mathlib.Data.Nat.Digits.Defs
import Mathlib.Data.Nat.ModEq

/-!
# Little-endian bytes

A number as a fixed count of bytes, the lowest first.
-/

namespace Rvx.LittleEndian

/-- The lowest `count` bytes of a number. -/
def toBytes : ℕ → ℕ → List UInt8
  | 0, _ => []
  | count + 1, n => UInt8.ofNat n :: toBytes count (n / 256)

def ofBytes (bytes : List UInt8) : ℕ := Nat.ofDigits 256 (bytes.map UInt8.toNat)

@[simp]
theorem length_toBytes (count n : ℕ) : (toBytes count n).length = count := by
  induction count generalizing n with
  | zero => rfl
  | succ count ih => rw [toBytes, List.length_cons, ih]

theorem ofBytes_toBytes (count n : ℕ) : ofBytes (toBytes count n) = n % 256 ^ count := by
  induction count generalizing n with
  | zero => simp [toBytes, ofBytes, Nat.mod_one]
  | succ count ih =>
    have hrest : Nat.ofDigits 256 ((toBytes count (n / 256)).map UInt8.toNat) =
        n / 256 % 256 ^ count := ih (n / 256)
    have hsplit : n % (256 * 256 ^ count) = n % 256 + 256 * (n / 256 % 256 ^ count) := Nat.mod_mul
    rw [toBytes, ofBytes, List.map_cons, Nat.ofDigits_cons, hrest, Nat.pow_succ', hsplit]
    rfl

/-- Numbers that fit their bytes are read back. -/
theorem ofBytes_toBytes_of_lt {count n : ℕ} (h : n < 256 ^ count) :
    ofBytes (toBytes count n) = n := by
  rw [ofBytes_toBytes, Nat.mod_eq_of_lt h]

end Rvx.LittleEndian
