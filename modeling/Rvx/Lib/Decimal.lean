import Mathlib.Algebra.Order.Field.Basic
import Mathlib.Algebra.Order.Field.Power
import Mathlib.Data.List.TakeWhile
import Mathlib.Data.Rat.Cast.Order
import Mathlib.Tactic.FieldSimp
import Mathlib.Tactic.Linarith
import Mathlib.Tactic.Positivity
import Mathlib.Tactic.Ring

/-!
# Decimal fractions

A number above zero is a fraction `0.d₁d₂…` with a nonzero first digit times a power of ten.  Two of
them compare by their exponents, and then digit by digit.
-/

namespace Rvx.Decimal

/-- Stated once, so that a digit is the same literal in every module. -/
instance neZero_ten : NeZero 10 := ⟨by decide⟩

/-- `0.d₁d₂…`. -/
def fraction : List (Fin 10) → ℚ
  | [] => 0
  | digit :: rest => (digit.val + fraction rest) / 10

/-- The natural number with these digits. -/
def natural (digits : List (Fin 10)) : ℕ :=
  digits.foldl (fun value digit ↦ 10 * value + digit.val) 0

/-- Compare item by item, the shorter list continued by a filler. -/
def comparePadded {α : Type} [Ord α] (zero : α) : List α → List α → Ordering
  | [], bs => bs.foldr (fun b order ↦ (compare zero b).then order) .eq
  | a :: as, [] => (compare a zero).then (comparePadded zero as [])
  | a :: as, b :: bs => (compare a b).then (comparePadded zero as bs)

theorem fraction_nonneg (digits : List (Fin 10)) : 0 ≤ fraction digits := by
  induction digits with
  | nil => exact le_rfl
  | cons digit rest ih =>
    rw [fraction]
    positivity

theorem fraction_lt_one (digits : List (Fin 10)) : fraction digits < 1 := by
  induction digits with
  | nil => exact zero_lt_one
  | cons digit rest ih =>
    have hdigit : (digit.val : ℚ) ≤ 9 := by exact_mod_cast Nat.le_of_lt_succ digit.isLt
    rw [fraction]
    linarith

/-- The first digit decides unless it is the same. -/
theorem compare_digit (a b : Fin 10) (as bs : List (Fin 10)) :
    compare (fraction (a :: as)) (fraction (b :: bs)) =
      (compare a b).then (compare (fraction as) (fraction bs)) := by
  have has := fraction_nonneg as
  have hbs := fraction_nonneg bs
  have has' := fraction_lt_one as
  have hbs' := fraction_lt_one bs
  simp only [fraction]
  rcases lt_trichotomy a b with hlt | rfl | hgt
  · have hle : (a.val : ℚ) + 1 ≤ b.val := by exact_mod_cast hlt
    rw [compare_lt_iff_lt.mpr hlt]
    exact compare_lt_iff_lt.mpr (by linarith)
  · rw [compare_eq_iff_eq.mpr rfl]
    change _ = compare (fraction as) (fraction bs)
    rcases lt_trichotomy (fraction as) (fraction bs) with hlt | heq | hgt
    · rw [compare_lt_iff_lt.mpr hlt, compare_lt_iff_lt]
      linarith
    · rw [heq]
      simp
    · rw [compare_gt_iff_gt.mpr hgt, compare_gt_iff_gt]
      linarith
  · have hle : (b.val : ℚ) + 1 ≤ a.val := by exact_mod_cast hgt
    rw [compare_gt_iff_gt.mpr hgt]
    exact compare_gt_iff_gt.mpr (by linarith)

theorem compare_fraction (as bs : List (Fin 10)) :
    compare (fraction as) (fraction bs) = comparePadded 0 as bs := by
  have hzero : fraction [0] = fraction [] := by simp [fraction]
  induction as generalizing bs with
  | nil =>
    induction bs with
    | nil => simp [comparePadded]
    | cons b bs ih =>
      rw [← hzero, compare_digit, ih]
      rfl
  | cons a as ih =>
    cases bs with
    | nil => rw [← hzero, compare_digit, ih, comparePadded]
    | cons b bs => rw [compare_digit, ih, comparePadded]

/-! ## Trailing zeros -/

/-- Digits without the zeros at their end. -/
def trimmed (digits : List (Fin 10)) : List (Fin 10) :=
  (digits.reverse.dropWhile fun digit ↦ digit = 0).reverse

theorem exists_zeros (digits : List (Fin 10)) :
    ∃ zeros : List (Fin 10), digits = trimmed digits ++ zeros ∧ ∀ digit ∈ zeros, digit = 0 := by
  refine ⟨(digits.reverse.takeWhile fun digit ↦ digit = 0).reverse, ?_, ?_⟩
  · rw [trimmed, ← List.reverse_append, List.takeWhile_append_dropWhile, List.reverse_reverse]
  · intro digit hdigit
    simpa using List.mem_takeWhile_imp (List.mem_reverse.mp hdigit)

theorem getLast?_trimmed (digits : List (Fin 10)) : (trimmed digits).getLast? ≠ some 0 := by
  intro hlast
  rw [trimmed, List.getLast?_reverse] at hlast
  have hnot := List.head?_dropWhile_not (fun digit : Fin 10 ↦ decide (digit = 0)) digits.reverse
  rw [hlast] at hnot
  simp at hnot

theorem fraction_append_zeros (digits : List (Fin 10)) {zeros : List (Fin 10)}
    (h : ∀ digit ∈ zeros, digit = 0) : fraction (digits ++ zeros) = fraction digits := by
  induction digits with
  | nil =>
    rw [List.nil_append]
    induction zeros with
    | nil => rfl
    | cons digit zeros ih =>
      rw [List.forall_mem_cons] at h
      have hcons : fraction (digit :: zeros) = (digit.val + fraction zeros) / 10 := rfl
      rw [hcons, ih h.2, h.1]
      simp [fraction]
  | cons digit digits ih => rw [List.cons_append, fraction, ih, fraction]

theorem fraction_trimmed (digits : List (Fin 10)) :
    fraction (trimmed digits) = fraction digits := by
  obtain ⟨zeros, hdigits, hzeros⟩ := exists_zeros digits
  calc
    fraction (trimmed digits) = fraction (trimmed digits ++ zeros) :=
      (fraction_append_zeros _ hzeros).symm
    _ = fraction digits := by rw [← hdigits]

theorem eq_nil_of_fraction {digits : List (Fin 10)} (hlast : digits.getLast? ≠ some 0)
    (h : fraction digits = 0) : digits = [] := by
  induction digits with
  | nil => rfl
  | cons digit rest ih =>
    have hrest := fraction_nonneg rest
    rw [fraction, div_eq_zero_iff, or_iff_left (by norm_num)] at h
    have hdigit : (0 : ℚ) ≤ digit.val := by positivity
    have hzero : digit = 0 := by
      have hval : (digit.val : ℚ) = 0 := by linarith
      exact_mod_cast hval
    have hnil : rest = [] := by
      refine ih ?_ (by linarith)
      cases rest with
      | nil => simp
      | cons next rest => rwa [List.getLast?_cons_cons] at hlast
    rw [hnil, hzero] at hlast
    exact absurd rfl hlast

/-- Without zeros at their end the digits of a fraction are unique. -/
theorem fraction_injective {as bs : List (Fin 10)} (has : as.getLast? ≠ some 0)
    (hbs : bs.getLast? ≠ some 0) (h : fraction as = fraction bs) : as = bs := by
  induction as generalizing bs with
  | nil => exact (eq_nil_of_fraction hbs h.symm).symm
  | cons a as ih =>
    cases bs with
    | nil => exact eq_nil_of_fraction has h
    | cons b bs =>
      have hcompare := compare_digit a b as bs
      rw [h, compare_eq_iff_eq.mpr rfl, eq_comm, Ordering.then_eq_eq, compare_eq_iff_eq,
        compare_eq_iff_eq] at hcompare
      have hlast {digit : Fin 10} {digits : List (Fin 10)}
          (h : (digit :: digits).getLast? ≠ some 0) : digits.getLast? ≠ some 0 := by
        cases digits with
        | nil => simp
        | cons next digits => rwa [List.getLast?_cons_cons] at h
      rw [hcompare.1, ih (hlast has) (hlast hbs) hcompare.2]

/-! ## Numbers above zero -/

theorem le_fraction {digits : List (Fin 10)} (hne : digits ≠ []) (hhead : digits.head? ≠ some 0) :
    1 / 10 ≤ fraction digits := by
  obtain ⟨digit, rest, rfl⟩ := List.exists_cons_of_ne_nil hne
  have hzero : digit ≠ 0 := by simpa using hhead
  have hdigit : (1 : ℚ) ≤ digit.val := by
    have hpos := Fin.pos_iff_ne_zero.mpr hzero
    rw [Fin.lt_def] at hpos
    exact_mod_cast hpos
  have hrest := fraction_nonneg rest
  rw [fraction]
  linarith

theorem fraction_pos {digits : List (Fin 10)} (hne : digits ≠ []) (hhead : digits.head? ≠ some 0) :
    0 < fraction digits :=
  lt_of_lt_of_le (by norm_num) (le_fraction hne hhead)

theorem scaled_lt {as bs : List (Fin 10)} (hne : bs ≠ []) (hhead : bs.head? ≠ some 0) {m n : ℤ}
    (h : m < n) : fraction as * 10 ^ m < fraction bs * (10 : ℚ) ^ n := by
  have hpow : (0 : ℚ) < 10 ^ m := by positivity
  calc
    fraction as * 10 ^ m < 1 * (10 : ℚ) ^ m := mul_lt_mul_of_pos_right (fraction_lt_one as) hpow
    _ = 1 / 10 * (10 : ℚ) ^ (m + 1) := by rw [zpow_add_one₀ (by norm_num)]; ring
    _ ≤ 1 / 10 * (10 : ℚ) ^ n := by
      gcongr
      · norm_num
      · omega
    _ ≤ fraction bs * (10 : ℚ) ^ n := by
      gcongr
      exact le_fraction hne hhead

theorem compare_mul_pos {a b c : ℚ} (h : 0 < c) : compare (a * c) (b * c) = compare a b := by
  rcases lt_trichotomy a b with hlt | rfl | hgt
  · rw [compare_lt_iff_lt.mpr hlt, compare_lt_iff_lt]
    exact mul_lt_mul_of_pos_right hlt h
  · simp
  · rw [compare_gt_iff_gt.mpr hgt, compare_gt_iff_gt]
    exact mul_lt_mul_of_pos_right hgt h

/-- Numbers compare by their exponents, and then digit by digit. -/
theorem compare_scaled {as bs : List (Fin 10)} (has : as ≠ []) (hbs : bs ≠ [])
    (hahead : as.head? ≠ some 0) (hbhead : bs.head? ≠ some 0) (m n : ℤ) :
    compare (fraction as * 10 ^ m) (fraction bs * (10 : ℚ) ^ n) =
      (compare m n).then (comparePadded 0 as bs) := by
  rcases lt_trichotomy m n with hlt | rfl | hgt
  · rw [compare_lt_iff_lt.mpr hlt]
    exact compare_lt_iff_lt.mpr (scaled_lt hbs hbhead hlt)
  · rw [compare_mul_pos (by positivity), compare_fraction, compare_eq_iff_eq.mpr rfl]
    rfl
  · rw [compare_gt_iff_gt.mpr hgt]
    exact compare_gt_iff_gt.mpr (scaled_lt has hahead hgt)

/-! ## Natural numbers -/

@[simp]
theorem natural_nil : natural [] = 0 := rfl

theorem natural_append (digits : List (Fin 10)) (digit : Fin 10) :
    natural (digits ++ [digit]) = 10 * natural digits + digit.val := by
  simp [natural]

theorem foldl_natural (digits : List (Fin 10)) (start : ℕ) :
    digits.foldl (fun value digit ↦ 10 * value + digit.val) start =
      start * 10 ^ digits.length + natural digits := by
  induction digits using List.reverseRecOn with
  | nil => simp
  | append_singleton digits digit ih =>
    rw [List.foldl_concat, ih, natural_append, List.length_append, List.length_singleton, pow_succ]
    ring

theorem natural_cons (digit : Fin 10) (digits : List (Fin 10)) :
    natural (digit :: digits) = digit.val * 10 ^ digits.length + natural digits := by
  rw [natural, List.foldl_cons, foldl_natural]
  simp

theorem natural_append_list (digits rest : List (Fin 10)) :
    natural (digits ++ rest) = natural digits * 10 ^ rest.length + natural rest := by
  rw [natural, List.foldl_append, foldl_natural, ← natural]

theorem natural_lt (digits : List (Fin 10)) : natural digits < 10 ^ digits.length := by
  induction digits with
  | nil => simp
  | cons digit digits ih =>
    have hdigit : digit.val ≤ 9 := Nat.le_of_lt_succ digit.isLt
    rw [natural_cons, List.length_cons, pow_succ]
    calc
      digit.val * 10 ^ digits.length + natural digits
          < digit.val * 10 ^ digits.length + 10 ^ digits.length := by omega
      _ = (digit.val + 1) * 10 ^ digits.length := by ring
      _ ≤ 10 * 10 ^ digits.length := Nat.mul_le_mul_right _ (by omega)
      _ = 10 ^ digits.length * 10 := by ring

/-- Leading zeros add nothing. -/
theorem natural_dropWhile (digits : List (Fin 10)) :
    natural (digits.dropWhile fun digit ↦ digit = 0) = natural digits := by
  induction digits with
  | nil => rfl
  | cons digit digits ih =>
    rw [List.dropWhile_cons]
    split
    · rename_i hzero
      rw [ih, natural_cons, of_decide_eq_true hzero]
      simp
    · rfl

/-- The digits read as a fraction and as a number. -/
theorem fraction_mul_pow (digits : List (Fin 10)) :
    fraction digits * 10 ^ digits.length = natural digits := by
  induction digits with
  | nil => simp [fraction]
  | cons digit digits ih =>
    rw [natural_cons, fraction, List.length_cons, pow_succ]
    push_cast
    rw [← ih]
    ring

/-- Numbers without leading zeros compare by their lengths, and then digit by digit. -/
theorem compare_natural {as bs : List (Fin 10)} (has : as ≠ []) (hbs : bs ≠ [])
    (hahead : as.head? ≠ some 0) (hbhead : bs.head? ≠ some 0) :
    compare (natural as) (natural bs) =
      (compare as.length bs.length).then (comparePadded 0 as bs) := by
  have hscaled := compare_scaled has hbs hahead hbhead as.length bs.length
  rw [zpow_natCast, zpow_natCast, fraction_mul_pow, fraction_mul_pow] at hscaled
  have hcast {m n : ℕ} : compare (m : ℚ) n = compare m n := by
    rcases lt_trichotomy m n with hlt | rfl | hgt
    · rw [compare_lt_iff_lt.mpr hlt, compare_lt_iff_lt]
      exact_mod_cast hlt
    · simp
    · rw [compare_gt_iff_gt.mpr hgt, compare_gt_iff_gt]
      exact_mod_cast hgt
  have hlength : compare (as.length : ℤ) bs.length = compare as.length bs.length := by
    rcases lt_trichotomy as.length bs.length with hlt | heq | hgt
    · rw [compare_lt_iff_lt.mpr hlt, compare_lt_iff_lt]
      exact_mod_cast hlt
    · simp [heq]
    · rw [compare_gt_iff_gt.mpr hgt, compare_gt_iff_gt]
      exact_mod_cast hgt
  rw [← hcast, hscaled, hlength]

/-- Lists of one length compare in the same way when none has to be continued. -/
theorem comparePadded_eq_compare {α : Type} [LinearOrder α] (zero : α) {as bs : List α}
    (h : as.length = bs.length) : comparePadded zero as bs = compare as bs := by
  induction as generalizing bs with
  | nil =>
    obtain rfl := List.length_eq_zero_iff.mp h.symm
    rfl
  | cons a as ih =>
    obtain ⟨b, bs, rfl⟩ := List.exists_cons_of_length_eq_add_one h.symm
    rw [comparePadded, ih (by simpa using h)]
    exact List.compareLex_cons_cons.symm

/-- The comparison of renamed digits. -/
theorem comparePadded_map {α β : Type} [Ord α] [Ord β] {rename : α → β}
    (h : ∀ a b, compare (rename a) (rename b) = compare a b) (zero : α) (as bs : List α) :
    comparePadded (rename zero) (as.map rename) (bs.map rename) = comparePadded zero as bs := by
  induction as generalizing bs with
  | nil =>
    induction bs with
    | nil => rfl
    | cons b bs ih =>
      simp only [List.map_nil, List.map_cons, comparePadded, List.foldr_cons] at ih ⊢
      rw [h, ih]
  | cons a as ih =>
    cases bs with
    | nil =>
      have hnil := ih []
      simp only [List.map_nil, List.map_cons, comparePadded] at hnil ⊢
      rw [h, hnil]
    | cons b bs => simp only [List.map_cons, comparePadded, h, ih]

end Rvx.Decimal
