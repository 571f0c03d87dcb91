import Rvx.Lib.Truncation
import Rvx.Web.ShadeOrder

/-!
# The window of a linear shade

Scaling rounds toward zero at the window's last place.  The extremum with the greater magnitude ends
above that place, so it is exact, and the other extremum cannot be rounded onto it: it is exact too, or
much smaller.
-/

namespace Rvx.Web.Shading

open Core
open Binary64 (nearest nearest_mono nearest_zero nearest_intCast)

/-! ## Scaling -/

/-- The part of a decimal above a power of ten. -/
def Decimal.at (d : Decimal) (origin : ℤ) : ℚ := d.value / 10 ^ origin

theorem at_le_at {a b : Decimal} {origin : ℤ} (h : a.value ≤ b.value) : a.at origin ≤ b.at origin :=
  div_le_div_of_nonneg_right h (ten_zpow_pos origin).le

theorem at_lt_at {a b : Decimal} {origin : ℤ} (h : a.value < b.value) : a.at origin < b.at origin :=
  div_lt_div_of_pos_right h (ten_zpow_pos origin)

theorem at_eq (d : Decimal) (origin : ℤ) : d.at origin = d.coefficient * 10 ^ (d.exponent - origin) := by
  rw [Decimal.at, Decimal.value, zpow_sub₀ (by norm_num), mul_div_assoc]

/-- A decimal that ends above the power of ten is a multiple of it. -/
theorem at_of_le {d : Decimal} {origin : ℤ} (h : origin ≤ d.exponent) :
    d.at origin = (d.coefficient * 10 ^ (d.exponent - origin).toNat : ℤ) := by
  rw [at_eq]
  push_cast
  rw [← zpow_natCast, Int.toNat_of_nonneg (by omega)]

theorem abs_at_lt_one {d : Decimal} (h : d.Valid) {origin : ℤ} (hsmall : d.magnitude ≤ origin) :
    |d.at origin| < 1 := by
  rw [Decimal.at, abs_div, abs_of_pos (ten_zpow_pos origin), div_lt_one (ten_zpow_pos origin)]
  exact h.abs_value_lt.trans_le (zpow_le_zpow_right₀ (by norm_num) hsmall)

/-- Scaling rounds toward zero. -/
theorem scaled_eq {d : Decimal} (h : d.Valid) {origin : ℤ}
    (hwindow : d.coefficient ≠ 0 → d.exponent - origin ≤ 4096) :
    scaled d origin = .ok (truncate (d.at origin)) := by
  unfold scaled
  by_cases hzero : d.coefficient = 0
  · rw [if_pos hzero, Decimal.at, d.value_eq_zero_iff.mpr hzero, zero_div,
      truncate_eq_zero (by simp)]
  · rw [if_neg hzero]
    dsimp only
    split_ifs with hshift hlarge hcut
    · exact absurd (hwindow hzero) (not_le.mpr hlarge)
    · rw [at_of_le (by omega), truncate_intCast]
    · rw [truncate_eq_zero (abs_at_lt_one h (by rw [h.magnitude]; omega))]
    · have hat : d.at origin = (d.coefficient : ℚ) / (10 ^ (-(d.exponent - origin)).toNat : ℕ) := by
        push_cast
        rw [at_eq, div_eq_mul_inv, ← zpow_natCast, ← zpow_neg, Int.toNat_of_nonneg (by omega),
          neg_neg]
      rw [hat, truncate_div]
      push_cast
      rfl

/-! ## Two extrema -/

theorem scaled_of_le {d : Decimal} (h : d.Valid) {magnitude : ℤ} {length : ℕ} (hlength : length ≤ 1024)
    (hmagnitude : d.coefficient ≠ 0 → d.magnitude ≤ magnitude) :
    scaled d (magnitude - (length + 6 : ℕ)) = .ok (truncate (d.at (magnitude - (length + 6 : ℕ)))) := by
  apply scaled_eq h
  intro hne
  have hle := hmagnitude hne
  have hdigits := List.length_pos_iff.mpr h.digits_ne_nil
  have hspec := h.magnitude
  omega

section Extrema

variable {minimum maximum : Decimal}

theorem magnitude_le_window :
    (minimum.coefficient ≠ 0 → minimum.magnitude ≤ windowMagnitude minimum maximum) ∧
      (maximum.coefficient ≠ 0 → maximum.magnitude ≤ windowMagnitude minimum maximum) := by
  unfold windowMagnitude
  split_ifs with hmin hmax hgt
  · exact ⟨fun hne ↦ absurd hmin hne, fun _ ↦ le_rfl⟩
  · exact ⟨fun _ ↦ le_rfl, fun hne ↦ absurd hmax hne⟩
  · exact ⟨fun _ ↦ le_rfl, fun _ ↦ hgt.le⟩
  · exact ⟨fun _ ↦ not_lt.mp hgt, fun _ ↦ le_rfl⟩

/-- The magnitude is that of an extremum that is not zero. -/
theorem window_attained (h : minimum.coefficient ≠ 0 ∨ maximum.coefficient ≠ 0) :
    (minimum.coefficient ≠ 0 ∧ minimum.magnitude = windowMagnitude minimum maximum) ∨
      (maximum.coefficient ≠ 0 ∧ maximum.magnitude = windowMagnitude minimum maximum) := by
  unfold windowMagnitude
  split_ifs with hmin hmax hgt
  · exact .inr ⟨h.resolve_left (not_not.mpr hmin), rfl⟩
  · exact .inl ⟨hmin, rfl⟩
  · exact .inl ⟨hmin, rfl⟩
  · exact .inr ⟨hmax, rfl⟩

theorem scaled_minimum (hmin : minimum.Valid) (hmax : maximum.Valid) :
    scaled minimum (windowOrigin minimum maximum) =
      .ok (truncate (minimum.at (windowOrigin minimum maximum))) :=
  scaled_of_le hmin (max_le hmin.short hmax.short) magnitude_le_window.1

theorem scaled_maximum (hmin : minimum.Valid) (hmax : maximum.Valid) :
    scaled maximum (windowOrigin minimum maximum) =
      .ok (truncate (maximum.at (windowOrigin minimum maximum))) :=
  scaled_of_le hmax (max_le hmin.short hmax.short) magnitude_le_window.2

theorem abs_value_lt_window {d : Decimal} (h : d.Valid)
    (hmagnitude : d.coefficient ≠ 0 → d.magnitude ≤ windowMagnitude minimum maximum) :
    |d.value| < 10 ^ windowMagnitude minimum maximum := by
  by_cases hzero : d.coefficient = 0
  · rw [d.value_eq_zero_iff.mpr hzero, abs_zero]
    exact ten_zpow_pos _
  · exact h.abs_value_lt.trans_le (zpow_le_zpow_right₀ (by norm_num) (hmagnitude hzero))

/-- A value between the extrema fits into their window. -/
theorem scaled_between (hmin : minimum.Valid) (hmax : maximum.Valid) {value : Decimal}
    (h : value.Valid) (hlow : minimum.value ≤ value.value) (hhigh : value.value ≤ maximum.value) :
    scaled value (windowOrigin minimum maximum) =
      .ok (truncate (value.at (windowOrigin minimum maximum))) := by
  apply scaled_of_le h (max_le hmin.short hmax.short)
  intro hne
  have hsmall : |value.value| < 10 ^ windowMagnitude minimum maximum := by
    have hminimum : |minimum.value| < 10 ^ windowMagnitude minimum maximum :=
      abs_value_lt_window hmin magnitude_le_window.1
    have hmaximum : |maximum.value| < 10 ^ windowMagnitude minimum maximum :=
      abs_value_lt_window hmax magnitude_le_window.2
    exact abs_lt.mpr ⟨(abs_lt.mp hminimum).1.trans_le hlow, hhigh.trans_lt (abs_lt.mp hmaximum).2⟩
  have hpow := (h.le_abs_value hne).trans_lt hsmall
  have hexponent := (zpow_lt_zpow_iff_right₀ (by norm_num)).mp hpow
  omega

/-- An extremum that ends below the window is much smaller than the other one. -/
theorem magnitude_of_fine {d : Decimal} (h : d.Valid)
    (hdigits : d.digits.length ≤ max minimum.digits.length maximum.digits.length)
    (hfine : d.exponent < windowOrigin minimum maximum) :
    d.magnitude < windowMagnitude minimum maximum := by
  have hspec := h.magnitude
  unfold windowOrigin at hfine
  omega

theorem exists_int_at {d : Decimal} {origin : ℤ} (h : ¬ (d.coefficient ≠ 0 ∧ d.exponent < origin)) :
    ∃ z : ℤ, d.at origin = z := by
  by_cases hzero : d.coefficient = 0
  · exact ⟨0, by rw [Decimal.at, d.value_eq_zero_iff.mpr hzero, zero_div, Int.cast_zero]⟩
  · exact ⟨_, at_of_le (not_lt.mp fun hlt ↦ h ⟨hzero, hlt⟩)⟩

theorem abs_at_lt_abs_at {a b : Decimal} (ha : a.Valid) (hb : b.Valid) (hne : b.coefficient ≠ 0)
    (h : a.magnitude < b.magnitude) (origin : ℤ) : |a.at origin| < |b.at origin| := by
  have hpow : (10 : ℚ) ^ a.magnitude ≤ 10 ^ (b.magnitude - 1) :=
    zpow_le_zpow_right₀ (by norm_num) (by omega)
  rw [Decimal.at, Decimal.at, abs_div, abs_div]
  exact div_lt_div_of_pos_right
    (ha.abs_value_lt.trans_le (hpow.trans (hb.le_abs_value hne))) (abs_pos.mpr (ten_zpow_pos _).ne')

/-- Different extrema stay different. -/
theorem truncate_lt_truncate (hmin : minimum.Valid) (hmax : maximum.Valid)
    (hlt : minimum.value < maximum.value) :
    truncate (minimum.at (windowOrigin minimum maximum)) <
      truncate (maximum.at (windowOrigin minimum maximum)) := by
  have hat : minimum.at (windowOrigin minimum maximum) < maximum.at (windowOrigin minimum maximum) :=
    at_lt_at hlt
  have hfineMin : minimum.exponent < windowOrigin minimum maximum →
      minimum.magnitude < windowMagnitude minimum maximum := magnitude_of_fine hmin (le_max_left _ _)
  have hfineMax : maximum.exponent < windowOrigin minimum maximum →
      maximum.magnitude < windowMagnitude minimum maximum := magnitude_of_fine hmax (le_max_right _ _)
  by_cases hminFine : minimum.coefficient ≠ 0 ∧ minimum.exponent < windowOrigin minimum maximum
  · -- the maximum is exact, positive and greater in its absolute value
    have hsmall := hfineMin hminFine.2
    obtain ⟨hne, hmagnitude⟩ := (window_attained (.inl hminFine.1)).resolve_left
      fun hattained ↦ hsmall.ne hattained.2
    obtain ⟨z, hz⟩ := exists_int_at fun hmaxFine ↦ (hfineMax hmaxFine.2).ne hmagnitude
    have habs := abs_at_lt_abs_at hmin hmax hne (hmagnitude ▸ hsmall)
      (windowOrigin minimum maximum)
    have hpos : 0 ≤ maximum.at (windowOrigin minimum maximum) := by
      by_contra hneg
      rw [abs_of_neg (not_le.mp hneg), abs_of_neg (hat.trans (not_le.mp hneg))] at habs
      linarith
    rw [abs_of_nonneg hpos, hz] at habs
    rw [hz, truncate_intCast]
    exact truncate_lt_of_abs_lt habs
  · obtain ⟨w, hw⟩ := exists_int_at hminFine
    by_cases hmaxFine : maximum.coefficient ≠ 0 ∧ maximum.exponent < windowOrigin minimum maximum
    · -- the minimum is exact, negative and greater in its absolute value
      have hsmall := hfineMax hmaxFine.2
      obtain ⟨hne, hmagnitude⟩ := (window_attained (.inr hmaxFine.1)).resolve_right
        fun hattained ↦ hsmall.ne hattained.2
      have habs := abs_at_lt_abs_at hmax hmin hne (hmagnitude ▸ hsmall)
        (windowOrigin minimum maximum)
      have hneg : minimum.at (windowOrigin minimum maximum) ≤ 0 := by
        by_contra hpos
        rw [abs_of_pos (not_le.mp hpos), abs_of_pos ((not_le.mp hpos).trans hat)] at habs
        linarith
      rw [abs_of_nonpos hneg, hw, ← abs_neg, ← Int.cast_neg] at habs
      have htruncate := truncate_lt_of_abs_lt habs
      rw [truncate_neg] at htruncate
      rw [hw, truncate_intCast]
      omega
    · obtain ⟨z, hz⟩ := exists_int_at hmaxFine
      rw [hw, hz] at hat ⊢
      rw [truncate_intCast, truncate_intCast]
      exact_mod_cast hat

end Extrema

end Rvx.Web.Shading
