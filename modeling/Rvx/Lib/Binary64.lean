import Mathlib.Data.Int.Log
import Mathlib.Data.Rat.Floor
import Mathlib.Tactic.Linarith
import Mathlib.Tactic.Positivity
import Mathlib.Tactic.FieldSimp

/-!
# Correctly rounded binary64

The value of the finite double nearest to a rational number, ties to the even significand, and
`none` where rounding leaves the finite range.  Doubles are represented by their values, so the two
zeros coincide.
-/

namespace Rvx.Binary64

/-- The nearest integer, ties to even. -/
def roundHalfEven (x : ℚ) : ℤ :=
  if x - ⌊x⌋ < 1 / 2 then ⌊x⌋
  else if 1 / 2 < x - ⌊x⌋ then ⌊x⌋ + 1
  else if ⌊x⌋ % 2 = 0 then ⌊x⌋ else ⌊x⌋ + 1

/-- The exponent of the last significand bit; `-1074` in the subnormal range. -/
def unitExponent (x : ℚ) : ℤ := max (Int.log 2 |x| - 52) (-1074)

/-- Round to the nearest double, or `none` when the result is infinite. -/
def round (x : ℚ) : Option ℚ :=
  let unit : ℚ := 2 ^ unitExponent x
  let rounded := roundHalfEven (x / unit) * unit
  if |rounded| < 2 ^ 1024 then some rounded else none

theorem abs_roundHalfEven_sub_le (x : ℚ) : |(roundHalfEven x : ℚ) - x| ≤ 1 := by
  have hle := Int.floor_le x
  have hlt := Int.lt_floor_add_one x
  unfold roundHalfEven
  split_ifs <;> rw [abs_le] <;> push_cast <;> constructor <;> linarith

theorem unitExponent_le {x : ℚ} {bound : ℤ} (hbound : -1074 ≤ bound) (hx : x ≠ 0)
    (hlt : |x| < 2 ^ (bound + 53)) : unitExponent x ≤ bound := by
  have hlog : Int.log 2 |x| < bound + 53 := by
    have hself := Int.zpow_log_le_self (b := 2) (r := |x|) (by norm_num) (abs_pos.mpr hx)
    have hpow : ((2 : ℕ) : ℚ) ^ Int.log 2 |x| < 2 ^ (bound + 53) := lt_of_le_of_lt hself hlt
    exact (zpow_lt_zpow_iff_right₀ (by norm_num : (1 : ℚ) < 2)).mp (by exact_mod_cast hpow)
  unfold unitExponent
  omega

/-- Magnitudes below `2 ^ 64` always round to a finite double. -/
theorem round_isSome {x : ℚ} (hlt : |x| < 2 ^ 64) : (round x).isSome := by
  by_cases hx : x = 0
  · subst hx
    simp [round, roundHalfEven]
  have hexp : unitExponent x ≤ 12 := by
    apply unitExponent_le (by norm_num) hx
    exact hlt.trans_le (by norm_num)
  have hpos : (0 : ℚ) < 2 ^ unitExponent x := zpow_pos (by norm_num) _
  have hunit : (2 : ℚ) ^ unitExponent x ≤ 2 ^ (12 : ℤ) :=
    zpow_le_zpow_right₀ (by norm_num) hexp
  have hround := abs_roundHalfEven_sub_le (x / 2 ^ unitExponent x)
  have hdiff : |(roundHalfEven (x / 2 ^ unitExponent x) : ℚ) * 2 ^ unitExponent x - x| ≤
      2 ^ unitExponent x := by
    have hmul := mul_le_mul_of_nonneg_right hround hpos.le
    rw [← abs_of_pos hpos, ← abs_mul, abs_of_pos hpos, sub_mul, div_mul_cancel₀ _ hpos.ne',
      one_mul] at hmul
    exact hmul
  have hbound : |(roundHalfEven (x / 2 ^ unitExponent x) : ℚ) * 2 ^ unitExponent x| < 2 ^ 1024 := by
    have htriangle := abs_sub_abs_le_abs_sub
      ((roundHalfEven (x / 2 ^ unitExponent x) : ℚ) * 2 ^ unitExponent x) x
    have hbig : (2 : ℚ) ^ 65 ≤ 2 ^ 1024 := pow_le_pow_right₀ (by norm_num) (by norm_num)
    have hsmall : (2 : ℚ) ^ 64 + 2 ^ (12 : ℤ) < 2 ^ 65 := by norm_num
    exact lt_of_lt_of_le (by linarith) hbig
  simp only [round, if_pos hbound, Option.isSome_some]

end Rvx.Binary64
