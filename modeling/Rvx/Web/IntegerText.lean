import Rvx.Core.NumberText
import Rvx.Lib.Binary64Order
import Rvx.Web.Numbers

/-!
# Integers as text

The text of a bigint, and of a number that is an integer below 10 ^ 21: the shortest numeral that is
read as the number, continued by zeros.  Of several shortest numerals it is the closest one.
-/

namespace Rvx.Web

open Core
open Binary64 (nearest nearest_neg nearest_zero nearest_intCast unitExponent unitExponent_le
  two_zpow_pos roundHalfEven)

/-- `String(value)` of a bigint. -/
def bigintText (value : ℤ) : List Char :=
  (if value < 0 then ['-'] else []) ++ (Number.decimalDigits value.natAbs).map digitChar

/-- The closest of the two multiples of `10 ^ zeros` around a number that are read as it, with an
even digit where they are equally close. -/
def shortestAt (magnitude zeros : ℕ) : Option ℕ :=
  let lower := magnitude / 10 ^ zeros * 10 ^ zeros
  let upper := lower + 10 ^ zeros
  let below := magnitude - lower
  let above := upper - magnitude
  if nearest lower = magnitude ∧
      (nearest upper = magnitude → below < above ∨ below = above ∧ magnitude / 10 ^ zeros % 2 = 0)
  then some lower
  else if nearest upper = magnitude then some upper
  else none

/-- As many zeros as possible. -/
def shortest (magnitude : ℕ) : ℕ → ℕ
  | 0 => magnitude
  | zeros + 1 => (shortestAt magnitude (zeros + 1)).getD (shortest magnitude zeros)

def shortestInteger (value : ℤ) : ℤ :=
  value.sign * shortest value.natAbs (Number.decimalDigits value.natAbs).length

/-- `String(value)`; the text of a number that is no integer below 10 ^ 21 is a parameter. -/
def numberText (other : ℚ → List Char) (value : ℚ) : List Char :=
  if value.den = 1 ∧ |value| < 10 ^ 21 then bigintText (shortestInteger value.num)
  else other value

example : shortestInteger 9223372036854775808 = 9223372036854776000 := by decide +kernel

example : shortestInteger (-9007199254740991) = -9007199254740991 := by decide +kernel

/-! ## What the texts are read as -/

theorem nearest_shortestAt {magnitude zeros candidate : ℕ}
    (h : shortestAt magnitude zeros = some candidate) : nearest candidate = magnitude := by
  unfold shortestAt at h
  dsimp only at h
  split_ifs at h with hlower hupper
  · exact Option.some.inj h ▸ hlower.1
  · exact Option.some.inj h ▸ hupper

/-- The text of a number is read as the number. -/
theorem nearest_shortest {magnitude : ℕ} (h : nearest magnitude = magnitude) (zeros : ℕ) :
    nearest (shortest magnitude zeros) = magnitude := by
  induction zeros with
  | zero => exact h
  | succ zeros ih =>
    rw [shortest]
    cases hat : shortestAt magnitude (zeros + 1) with
    | none => exact ih
    | some candidate => exact nearest_shortestAt hat

theorem nearest_shortestInteger {value : ℤ} (h : nearest value = value) :
    nearest (shortestInteger value) = value := by
  have hshortest (hmagnitude : nearest (value.natAbs : ℕ) = (value.natAbs : ℕ)) :=
    nearest_shortest hmagnitude (Number.decimalDigits value.natAbs).length
  unfold shortestInteger
  rcases lt_trichotomy value 0 with hneg | hzero | hpos
  · have hcast : ((value.natAbs : ℕ) : ℚ) = -value := by
      rw [Nat.cast_natAbs, abs_of_neg hneg, Int.cast_neg]
    rw [hcast, nearest_neg, h] at hshortest
    rw [Int.sign_eq_neg_one_of_neg hneg]
    push_cast
    rw [neg_one_mul, nearest_neg, hshortest rfl, neg_neg]
  · simp [hzero, nearest_zero]
  · have hcast : ((value.natAbs : ℕ) : ℚ) = value := by
      rw [Nat.cast_natAbs, abs_of_pos hpos]
    rw [hcast, h] at hshortest
    rw [Int.sign_eq_one_of_pos hpos]
    push_cast
    rw [one_mul, hshortest rfl]

theorem digitChar_ne_minus (digit : Fin 10) : digitChar digit ≠ '-' := by
  revert digit
  decide

theorem bigintText_injective : Function.Injective bigintText := by
  have hdigits (n : ℕ) : '-' ∉ (Number.decimalDigits n).map digitChar := fun hmem ↦ by
    obtain ⟨digit, -, heq⟩ := List.mem_map.mp hmem
    exact digitChar_ne_minus digit heq
  have habs {n m : ℕ} (h : (Number.decimalDigits n).map digitChar =
      (Number.decimalDigits m).map digitChar) : n = m := by
    have hvalue := congrArg digitsValue (digitChar_injective.list_map h)
    rwa [Number.digitsValue_decimalDigits, Number.digitsValue_decimalDigits] at hvalue
  have hsign {n m : ℕ} : ['-'] ++ (Number.decimalDigits n).map digitChar ≠
      [] ++ (Number.decimalDigits m).map digitChar := fun heq ↦ by
    have hmem : '-' ∈ ['-'] ++ (Number.decimalDigits n).map digitChar := by simp
    rw [heq, List.nil_append] at hmem
    exact hdigits m hmem
  intro value value' h
  unfold bigintText at h
  split_ifs at h with hneg hneg' hneg'
  · have := habs (List.append_cancel_left h)
    omega
  · exact absurd h hsign
  · exact absurd h.symm hsign
  · have := habs (List.append_cancel_left h)
    omega

/-- The double nearest to an integer is an integer. -/
theorem exists_int_nearest (z : ℤ) : ∃ m : ℤ, nearest z = m := by
  by_cases hsmall : |z| ≤ 2 ^ 53
  · exact ⟨z, nearest_intCast hsmall⟩
  · have hunit : 0 ≤ unitExponent z := by
      by_contra hneg
      have hz : z ≠ 0 := fun hzero ↦ hsmall (by simp [hzero])
      have hpos : (0 : ℚ) < |(z : ℚ)| := abs_pos.mpr (by exact_mod_cast hz)
      have hlt := Binary64.lt_pow_unitExponent hpos
      have habs : unitExponent |(z : ℚ)| = unitExponent z := by
        rw [unitExponent, unitExponent, abs_abs]
      have hpow : (2 : ℚ) ^ (unitExponent z + 53) ≤ 2 ^ (53 : ℤ) :=
        zpow_le_zpow_right₀ (by norm_num) (by omega)
      rw [habs] at hlt
      exact hsmall (by exact_mod_cast (hlt.trans_le hpow).le)
    refine ⟨roundHalfEven (z / 2 ^ unitExponent z) * 2 ^ (unitExponent z).toNat, ?_⟩
    rw [nearest]
    push_cast
    congr 1
    rw [← zpow_natCast, Int.toNat_of_nonneg hunit]

theorem numberText_of_int {other : ℚ → List Char} {value : ℤ} (h : |value| < 10 ^ 21) :
    numberText other value = bigintText (shortestInteger value) := by
  have hlt : |(value : ℚ)| < 10 ^ 21 := by exact_mod_cast h
  simp [numberText, hlt]

end Rvx.Web
