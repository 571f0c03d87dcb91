import Mathlib.Algebra.Order.Floor.Ring
import Mathlib.Tactic.Linarith

/-!
# Rounding toward zero

The integer part of a number of an ordered field, and the integer division that computes it.
-/

namespace Rvx

variable {K : Type*} [Field K] [LinearOrder K] [FloorRing K]

/-- The closest integer that is not farther from zero. -/
def truncate (x : K) : ℤ := if 0 ≤ x then ⌊x⌋ else ⌈x⌉

theorem truncate_of_nonneg {x : K} (h : 0 ≤ x) : truncate x = ⌊x⌋ := if_pos h

variable [IsStrictOrderedRing K]

theorem truncate_intCast (z : ℤ) : truncate (z : K) = z := by simp [truncate]

theorem truncate_of_nonpos {x : K} (h : x ≤ 0) : truncate x = ⌈x⌉ := by
  rcases h.lt_or_eq with hneg | rfl
  · exact if_neg (not_le.mpr hneg)
  · simp [truncate]

theorem truncate_neg (x : K) : truncate (-x) = -truncate x := by
  rcases le_total 0 x with hx | hx
  · rw [truncate_of_nonneg hx, truncate_of_nonpos (neg_nonpos.mpr hx), Int.ceil_neg]
  · rw [truncate_of_nonpos hx, truncate_of_nonneg (neg_nonneg.mpr hx), Int.floor_neg]

theorem truncate_mono {x y : K} (h : x ≤ y) : truncate x ≤ truncate y := by
  rcases le_total 0 x with hx | hx
  · rw [truncate_of_nonneg hx, truncate_of_nonneg (hx.trans h)]
    exact Int.floor_mono h
  · rcases le_total 0 y with hy | hy
    · rw [truncate_of_nonpos hx, truncate_of_nonneg hy]
      exact (Int.ceil_nonpos.mpr hx).trans (Int.floor_nonneg.mpr hy)
    · rw [truncate_of_nonpos hx, truncate_of_nonpos hy]
      exact Int.ceil_mono h

/-- What is nearer to zero than an integer stays below it. -/
theorem truncate_lt_of_abs_lt {x : K} {z : ℤ} (h : |x| < z) : truncate x < z := by
  rcases le_total 0 x with hx | hx
  · rw [truncate_of_nonneg hx, Int.floor_lt]
    exact (le_abs_self x).trans_lt h
  · have hz : (0 : K) < z := (abs_nonneg x).trans_lt h
    rw [truncate_of_nonpos hx]
    exact (Int.ceil_nonpos.mpr hx).trans_lt (Int.cast_pos.mp hz)

theorem truncate_eq_zero {x : K} (h : |x| < 1) : truncate x = 0 := by
  have hbelow {y : K} (hy : |y| < 1) : truncate y < 1 := truncate_lt_of_abs_lt (by simpa using hy)
  have habove := hbelow (y := -x) (by rwa [abs_neg])
  have hx := hbelow h
  rw [truncate_neg] at habove
  omega

/-- Integer division rounds toward zero. -/
theorem truncate_div (z : ℤ) (n : ℕ) : truncate ((z : K) / n) = z.tdiv n := by
  have hnonneg {z : ℤ} (hz : 0 ≤ z) : truncate ((z : K) / n) = z.tdiv n := by
    have hle : (0 : K) ≤ z / n := div_nonneg (by exact_mod_cast hz) (Nat.cast_nonneg n)
    rw [truncate_of_nonneg hle, Int.floor_div_natCast, Int.floor_intCast,
      Int.tdiv_eq_ediv_of_nonneg hz]
  rcases le_total 0 z with hz | hz
  · exact hnonneg hz
  · have hneg := hnonneg (neg_nonneg.mpr hz)
    rwa [Int.cast_neg, neg_div, truncate_neg, Int.neg_tdiv, neg_inj] at hneg

end Rvx
