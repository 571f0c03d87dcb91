import Rvx.Web.DecimalRounding
import Rvx.Web.Shading

/-!
# Shaded decimals are ordered as numbers

A decoded decimal is its coefficient times a power of ten.  Its magnitude places the first digit, so
decimals of one sign compare by their magnitudes and then by their padded digits.
-/

namespace Rvx.Web.Shading

open Core
open Rvx.Decimal (fraction comparePadded compare_fraction compare_scaled fraction_append_zeros
  fraction_mul_pow fraction_lt_one le_fraction natural_dropWhile)

/-! ## Values -/

def Decimal.value (d : Decimal) : ℚ := d.coefficient * 10 ^ d.exponent

/-- What decoding keeps of its text. -/
structure Decimal.Valid (d : Decimal) : Prop where
  digits_ne_nil : d.digits ≠ []
  canonical : d.coefficient ≠ 0 → d.digits.head? ≠ some 0
  natAbs : d.coefficient.natAbs = digitsValue d.digits
  magnitude : d.magnitude = d.exponent + d.digits.length
  short : d.digits.length ≤ 1024

theorem ten_zpow_pos (e : ℤ) : (0 : ℚ) < 10 ^ e := by positivity

theorem Decimal.value_neg_iff (d : Decimal) : d.value < 0 ↔ d.coefficient < 0 := by
  rw [Decimal.value, Rat.mul_neg_iff_of_pos_right (ten_zpow_pos _), Int.cast_lt_zero]

theorem Decimal.value_eq_zero_iff (d : Decimal) : d.value = 0 ↔ d.coefficient = 0 := by
  rw [Decimal.value, mul_eq_zero, or_iff_left (ten_zpow_pos _).ne', Int.cast_eq_zero]

theorem Decimal.value_pos_iff (d : Decimal) : 0 < d.value ↔ 0 < d.coefficient := by
  rw [Decimal.value, mul_pos_iff_of_pos_right (ten_zpow_pos _), Int.cast_pos]

/-- The digits as a fraction, moved to the magnitude. -/
theorem Decimal.Valid.abs_value {d : Decimal} (h : d.Valid) :
    |d.value| = fraction d.digits * 10 ^ d.magnitude := by
  have hdigits : ((d.coefficient.natAbs : ℕ) : ℚ) = fraction d.digits * 10 ^ d.digits.length := by
    rw [h.natAbs, fraction_mul_pow]
    rfl
  calc
    |d.value| = (d.coefficient.natAbs : ℕ) * 10 ^ d.exponent := by
      rw [Decimal.value, abs_mul, abs_of_pos (ten_zpow_pos _), Nat.cast_natAbs, Int.cast_abs]
    _ = fraction d.digits * (10 ^ d.exponent * 10 ^ (d.digits.length : ℤ)) := by
      rw [hdigits, zpow_natCast]
      ring
    _ = fraction d.digits * 10 ^ d.magnitude := by
      rw [h.magnitude, zpow_add₀ (by norm_num)]

theorem Decimal.Valid.abs_value_lt {d : Decimal} (h : d.Valid) : |d.value| < 10 ^ d.magnitude := by
  rw [h.abs_value]
  exact mul_lt_of_lt_one_left (ten_zpow_pos _) (fraction_lt_one _)

theorem Decimal.Valid.le_abs_value {d : Decimal} (h : d.Valid) (hne : d.coefficient ≠ 0) :
    10 ^ (d.magnitude - 1) ≤ |d.value| := by
  rw [h.abs_value, zpow_sub_one₀ (by norm_num), mul_comm]
  gcongr
  rw [inv_eq_one_div]
  exact le_fraction h.digits_ne_nil (h.canonical hne)

/-! ## Decoding -/

/-- The digits from the first that is not zero, or one zero. -/
def significant (digits : List (Fin 10)) : List (Fin 10) :=
  if (digits.dropWhile fun digit ↦ digit = 0) = [] then [0]
  else digits.dropWhile fun digit ↦ digit = 0

theorem significant_ne_nil (digits : List (Fin 10)) : significant digits ≠ [] := by
  unfold significant
  split_ifs with hnil
  · exact List.cons_ne_nil _ _
  · exact hnil

theorem digitsValue_significant (digits : List (Fin 10)) :
    digitsValue (significant digits) = digitsValue digits := by
  have hdrop : digitsValue (digits.dropWhile fun digit ↦ digit = 0) = digitsValue digits :=
    natural_dropWhile digits
  unfold significant
  split_ifs with hnil
  · rw [hnil] at hdrop
    exact hdrop
  · exact hdrop

theorem head?_significant {digits : List (Fin 10)} (h : digitsValue digits ≠ 0) :
    (significant digits).head? ≠ some 0 := by
  rw [← digitsValue_significant] at h
  unfold significant at h ⊢
  split_ifs at h ⊢ with hnil
  · exact absurd rfl h
  · intro hhead
    have hnot := List.head?_dropWhile_not (fun digit : Fin 10 ↦ decide (digit = 0)) digits
    rw [hhead] at hnot
    simp at hnot

theorem length_significant_le {digits : List (Fin 10)} (h : digits ≠ []) :
    (significant digits).length ≤ digits.length := by
  unfold significant
  split_ifs
  · exact List.length_pos_iff.mpr h
  · exact (List.dropWhile_suffix _).length_le

section OfNumber

variable {number : Number} {text : String}

theorem coefficient_ofNumber : (ofNumber number text).coefficient =
    digitsValue (number.integer ++ number.fraction.getD []) * if number.negative then -1 else 1 := by
  rw [← digitsValue_significant]
  rfl

theorem value_ofNumber : (ofNumber number text).value = number.toRat := by
  have hcoefficient : (ofNumber number text).coefficient = _ := coefficient_ofNumber
  have hexponent : (ofNumber number text).exponent = if (ofNumber number text).coefficient = 0 then 0
      else number.exponent.elim 0 Exponent.value - (number.fraction.getD []).length := rfl
  rw [Decimal.value, hexponent, Number.toRat, hcoefficient]
  by_cases hzero : digitsValue (number.integer ++ number.fraction.getD []) = 0
  · simp [hzero]
  · split_ifs <;> simp_all

end OfNumber

theorem length_le_codeUnits (text : String) : text.toList.length ≤ codeUnits text := by
  rw [codeUnits]
  induction text.toList with
  | nil => rfl
  | cons c rest ih =>
    rw [List.map_cons, List.sum_cons, List.length_cons]
    split_ifs <;> omega

theorem valid_ofNumber {number : Number} {text : String}
    (hread : Number.read text.toList = some number) (hshort : codeUnits text ≤ 1024) :
    (ofNumber number text).Valid := by
  have hne : number.integer ++ number.fraction.getD [] ≠ [] := by simp [number.integer_ne_nil]
  have hlength : (number.integer ++ number.fraction.getD []).length ≤ text.toList.length := by
    rw [← Number.chars_of_read hread, Number.chars]
    cases number.fraction <;> simp <;> omega
  have hcoefficient : (ofNumber number text).coefficient = _ := coefficient_ofNumber
  exact
    { digits_ne_nil := significant_ne_nil _
      canonical := fun hnonzero ↦ head?_significant fun hzero ↦ hnonzero (by simp [hcoefficient, hzero])
      natAbs := by
        rw [hcoefficient, Int.natAbs_mul, Int.natAbs_natCast, ← digitsValue_significant]
        split_ifs <;> simp <;> rfl
      magnitude := rfl
      short := (length_significant_le hne).trans
        (hlength.trans ((length_le_codeUnits text).trans hshort)) }

/-! ## Comparison -/

def orderSign : Ordering → ℤ
  | .lt => -1
  | .eq => 0
  | .gt => 1

theorem orderSign_compare {α : Type} [LinearOrder α] (a b : α) :
    (if a < b then -1 else if b < a then 1 else 0) = orderSign (Ord.compare a b) := by
  rcases lt_trichotomy a b with hlt | rfl | hgt
  · rw [if_pos hlt, compare_lt_iff_lt.mpr hlt]
    rfl
  · rw [if_neg (lt_irrefl a), if_neg (lt_irrefl a), compare_eq_iff_eq.mpr rfl]
    rfl
  · rw [if_neg hgt.not_gt, if_pos hgt, compare_gt_iff_gt.mpr hgt]
    rfl

theorem fraction_padEnd (length : ℕ) (digits : List (Fin 10)) :
    fraction (padEnd length digits) = fraction digits :=
  fraction_append_zeros digits fun _ hdigit ↦ List.eq_of_mem_replicate hdigit

theorem length_padEnd {length : ℕ} {digits : List (Fin 10)} (h : digits.length ≤ length) :
    (padEnd length digits).length = length := by
  rw [padEnd, List.length_append, List.length_replicate, Nat.add_sub_cancel' h]

theorem orderSign_comparePadded {as bs : List (Fin 10)} (h : as.length = bs.length) :
    (if as < bs then -1 else if bs < as then 1 else 0) = orderSign (comparePadded 0 as bs) := by
  induction as generalizing bs with
  | nil =>
    obtain rfl := List.length_eq_zero_iff.mp h.symm
    rfl
  | cons a as ih =>
    obtain ⟨b, bs, rfl⟩ := List.exists_cons_of_length_eq_add_one h.symm
    have hrest := @ih bs (by simpa using h)
    simp only [List.cons_lt_cons_iff, comparePadded]
    rcases lt_trichotomy a b with hlt | rfl | hgt
    · rw [if_pos (.inl hlt), compare_lt_iff_lt.mpr hlt]
      rfl
    · rw [compare_eq_iff_eq.mpr rfl, Ordering.eq_then, ← hrest]
      simp
    · have hle : ¬ (a < b ∨ a = b ∧ as < bs) := by
        rintro (hlt | ⟨heq, -⟩)
        · exact hlt.not_gt hgt
        · exact hgt.ne' heq
      rw [if_neg hle, if_pos (.inl hgt), compare_gt_iff_gt.mpr hgt]
      rfl

/-- Padded digits compare as fractions. -/
theorem orderSign_padEnd (as bs : List (Fin 10)) :
    (if padEnd (max as.length bs.length) as < padEnd (max as.length bs.length) bs then -1
      else if padEnd (max as.length bs.length) bs < padEnd (max as.length bs.length) as then 1
      else 0) = orderSign (comparePadded 0 as bs) := by
  have hlength : (padEnd (max as.length bs.length) as).length =
      (padEnd (max as.length bs.length) bs).length := by
    rw [length_padEnd (le_max_left _ _), length_padEnd (le_max_right _ _)]
  rw [orderSign_comparePadded hlength, ← compare_fraction, fraction_padEnd, fraction_padEnd,
    compare_fraction]

theorem compare_neg (x y : ℚ) : Ord.compare (-x) (-y) = Ord.compare y x := by
  rcases lt_trichotomy y x with hlt | rfl | hgt
  · rw [compare_lt_iff_lt.mpr hlt, compare_lt_iff_lt.mpr (neg_lt_neg hlt)]
  · simp
  · rw [compare_gt_iff_gt.mpr hgt, compare_gt_iff_gt.mpr (neg_lt_neg hgt)]

/-- Absolute values compare by their magnitudes, and then by their padded digits. -/
theorem compare_abs {a b : Decimal} (ha : a.Valid) (hb : b.Valid) (hazero : a.coefficient ≠ 0)
    (hbzero : b.coefficient ≠ 0) : orderSign (Ord.compare |a.value| |b.value|) =
      if a.magnitude ≠ b.magnitude then if a.magnitude < b.magnitude then -1 else 1
      else
        let left := padEnd (max a.digits.length b.digits.length) a.digits
        let right := padEnd (max a.digits.length b.digits.length) b.digits
        if left < right then -1 else if right < left then 1 else 0 := by
  rw [ha.abs_value, hb.abs_value, compare_scaled ha.digits_ne_nil hb.digits_ne_nil
    (ha.canonical hazero) (hb.canonical hbzero)]
  dsimp only
  rcases lt_trichotomy a.magnitude b.magnitude with hlt | heq | hgt
  · rw [if_pos hlt.ne, if_pos hlt, compare_lt_iff_lt.mpr hlt]
    rfl
  · rw [if_neg (not_not.mpr heq), heq, compare_eq_iff_eq.mpr rfl, Ordering.eq_then,
      orderSign_padEnd]
  · rw [if_pos hgt.ne', if_neg hgt.not_gt, compare_gt_iff_gt.mpr hgt]
    rfl

theorem orderSign_swap (x y : ℚ) : orderSign (Ord.compare y x) = -orderSign (Ord.compare x y) := by
  rw [← orderSign_compare, ← orderSign_compare]
  rcases lt_trichotomy x y with hlt | rfl | hgt
  · rw [if_neg hlt.not_gt, if_pos hlt, if_pos hlt]
    rfl
  · simp
  · rw [if_pos hgt, if_neg hgt.not_gt, if_pos hgt]

/-- Decimals compare as the numbers they are. -/
theorem compare_value {a b : Decimal} (ha : a.Valid) (hb : b.Valid) :
    compare a b = orderSign (Ord.compare a.value b.value) := by
  unfold compare
  by_cases hazero : a.coefficient = 0
  · rw [if_pos hazero, a.value_eq_zero_iff.mpr hazero]
    rcases lt_trichotomy b.coefficient 0 with hneg | hzero | hpos
    · rw [if_neg hneg.ne, if_pos hneg, compare_gt_iff_gt.mpr (b.value_neg_iff.mpr hneg)]
      rfl
    · rw [if_pos hzero, b.value_eq_zero_iff.mpr hzero, compare_eq_iff_eq.mpr rfl]
      rfl
    · rw [if_neg hpos.ne', if_neg hpos.not_gt, compare_lt_iff_lt.mpr (b.value_pos_iff.mpr hpos)]
      rfl
  rw [if_neg hazero]
  by_cases hbzero : b.coefficient = 0
  · rw [if_pos hbzero, b.value_eq_zero_iff.mpr hbzero]
    rcases lt_or_gt_of_ne hazero with hneg | hpos
    · rw [if_pos hneg, compare_lt_iff_lt.mpr (a.value_neg_iff.mpr hneg)]
      rfl
    · rw [if_neg hpos.not_gt, compare_gt_iff_gt.mpr (a.value_pos_iff.mpr hpos)]
      rfl
  rw [if_neg hbzero]
  have habs := compare_abs ha hb hazero hbzero
  rcases lt_or_gt_of_ne hazero with haneg | hapos
  · rcases lt_or_gt_of_ne hbzero with hbneg | hbpos
    · rw [abs_of_neg (a.value_neg_iff.mpr haneg), abs_of_neg (b.value_neg_iff.mpr hbneg),
        compare_neg, orderSign_swap] at habs
      rw [neg_eq_iff_eq_neg.mp habs]
      simp only [haneg, hbneg, if_true, ne_eq, not_true_eq_false, if_false]
      by_cases hmagnitude : a.magnitude = b.magnitude
      · simp only [hmagnitude, not_true_eq_false, if_false, mul_neg_one]
      · simp only [hmagnitude, not_false_eq_true, if_true, mul_neg_one]
    · have hlt := (a.value_neg_iff.mpr haneg).trans (b.value_pos_iff.mpr hbpos)
      simp only [haneg, hbpos.not_gt, if_true, ne_eq, compare_lt_iff_lt.mpr hlt]
      simp [orderSign]
  · rcases lt_or_gt_of_ne hbzero with hbneg | hbpos
    · have hgt := (b.value_neg_iff.mpr hbneg).trans (a.value_pos_iff.mpr hapos)
      simp only [hapos.not_gt, hbneg, if_false, ne_eq, compare_gt_iff_gt.mpr hgt]
      simp [orderSign]
    · rw [abs_of_pos (a.value_pos_iff.mpr hapos), abs_of_pos (b.value_pos_iff.mpr hbpos)] at habs
      simp only [hapos.not_gt, hbpos.not_gt, ne_eq, not_true_eq_false, if_false, mul_one]
      rw [habs]

end Rvx.Web.Shading
