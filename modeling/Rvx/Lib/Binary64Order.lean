import Mathlib.Tactic.Ring
import Rvx.Lib.Binary64

/-!
# Order of correctly rounded binary64

Rounding keeps the order and the sign, and leaves alone what is a double already.  The nearest value
is taken without an upper end of the exponents here, so that it is defined everywhere.
-/

namespace Rvx.Binary64

/-- The nearest multiple of the last place; it is a double unless it is too large. -/
def nearest (x : ℚ) : ℚ := roundHalfEven (x / 2 ^ unitExponent x) * 2 ^ unitExponent x

theorem round_eq (x : ℚ) : round x = if |nearest x| < 2 ^ 1024 then some (nearest x) else none := rfl

/-! ## Rounding to integers -/

theorem roundHalfEven_intCast (z : ℤ) : roundHalfEven z = z := by
  simp [roundHalfEven]

theorem floor_le_roundHalfEven (x : ℚ) : ⌊x⌋ ≤ roundHalfEven x ∧ roundHalfEven x ≤ ⌊x⌋ + 1 := by
  unfold roundHalfEven
  split_ifs <;> omega

theorem roundHalfEven_mono {x y : ℚ} (h : x ≤ y) : roundHalfEven x ≤ roundHalfEven y := by
  have hfloor : ⌊x⌋ ≤ ⌊y⌋ := Int.floor_mono h
  rcases hfloor.lt_or_eq with hlt | heq
  · have hx := (floor_le_roundHalfEven x).2
    have hy := (floor_le_roundHalfEven y).1
    omega
  · unfold roundHalfEven
    rw [heq]
    split_ifs <;> first | omega | exact absurd h (by linarith)

theorem roundHalfEven_neg (x : ℚ) : roundHalfEven (-x) = -roundHalfEven x := by
  by_cases hint : x = ⌊x⌋
  · rw [hint, ← Int.cast_neg, roundHalfEven_intCast, roundHalfEven_intCast]
  · have hfloor : ⌊-x⌋ = -⌊x⌋ - 1 := by
      have hle := Int.floor_le x
      have hlt := Int.lt_floor_add_one x
      have hne : (⌊x⌋ : ℚ) < x := lt_of_le_of_ne hle (Ne.symm hint)
      rw [Int.floor_eq_iff]
      push_cast
      constructor <;> linarith
    unfold roundHalfEven
    rw [hfloor]
    push_cast
    split_ifs <;> first | omega | linarith

/-! ## Exponents -/

theorem unitExponent_neg (x : ℚ) : unitExponent (-x) = unitExponent x := by
  rw [unitExponent, unitExponent, abs_neg]

theorem unitExponent_mono {x y : ℚ} (hx : 0 < x) (h : x ≤ y) : unitExponent x ≤ unitExponent y := by
  have hlog : Int.log 2 |x| ≤ Int.log 2 |y| := by
    rw [abs_of_pos hx, abs_of_pos (hx.trans_le h)]
    exact Int.log_mono_right hx h
  unfold unitExponent
  omega

/-- A number is below 2 ^ 53 of its last places. -/
theorem lt_pow_unitExponent {x : ℚ} (hx : 0 < x) : x < 2 ^ (unitExponent x + 53) := by
  have hlt := Int.lt_zpow_succ_log_self (b := 2) (by norm_num) x
  calc
    x < ((2 : ℕ) : ℚ) ^ (Int.log 2 x + 1) := hlt
    _ = 2 ^ (Int.log 2 x + 1) := by norm_num
    _ ≤ 2 ^ (unitExponent x + 53) := by
      refine zpow_le_zpow_right₀ (by norm_num) ?_
      unfold unitExponent
      rw [abs_of_pos hx]
      omega

/-- Outside the subnormal range it is at least 2 ^ 52 of them. -/
theorem pow_unitExponent_le {x : ℚ} (hx : 0 < x) (h : -1074 < unitExponent x) :
    2 ^ (unitExponent x + 52) ≤ x := by
  have hself := Int.zpow_log_le_self (b := 2) (by norm_num) hx
  have hunit : unitExponent x = Int.log 2 x - 52 := by
    unfold unitExponent at h ⊢
    rw [abs_of_pos hx] at h ⊢
    omega
  rw [hunit, sub_add_cancel]
  exact_mod_cast hself

/-! ## The nearest double -/

theorem nearest_zero : nearest 0 = 0 := by simp [nearest, roundHalfEven]

theorem nearest_neg (x : ℚ) : nearest (-x) = -nearest x := by
  rw [nearest, nearest, unitExponent_neg, neg_div, roundHalfEven_neg]
  push_cast
  ring

theorem two_zpow_pos (e : ℤ) : (0 : ℚ) < 2 ^ e := zpow_pos (by norm_num) e

/-- What is a multiple of its last place is a double. -/
theorem nearest_of_multiple {x : ℚ} {e : ℤ} (hunit : unitExponent x ≤ e) {m : ℤ}
    (hx : x = m * 2 ^ e) : nearest x = x := by
  unfold nearest
  generalize unitExponent x = unit at hunit
  have hpow := two_zpow_pos unit
  obtain ⟨shift, hshift⟩ := Int.le.dest hunit
  have hquotient : x / 2 ^ unit = ((m * 2 ^ shift : ℤ) : ℚ) := by
    rw [div_eq_iff hpow.ne', hx, ← hshift, zpow_add₀ (by norm_num), zpow_natCast]
    push_cast
    ring
  rw [hquotient, roundHalfEven_intCast, ← hquotient, div_mul_cancel₀ _ hpow.ne']

theorem nearest_dyadic_lt {m e : ℤ} (hm : |m| < 2 ^ 53) (he : -1074 ≤ e) :
    nearest (m * 2 ^ e) = m * 2 ^ e := by
  by_cases hzero : m = 0
  · simp [hzero, nearest_zero]
  refine nearest_of_multiple (e := e) (unitExponent_le he ?_ ?_) rfl
  · exact mul_ne_zero (by exact_mod_cast hzero) (two_zpow_pos e).ne'
  · have hsize : |(m : ℚ)| < 2 ^ 53 := by exact_mod_cast hm
    rw [abs_mul, abs_of_pos (two_zpow_pos e), add_comm, zpow_add₀ (by norm_num)]
    exact mul_lt_mul_of_pos_right (by exact_mod_cast hsize) (two_zpow_pos e)

/-- A multiple of a power of two with at most 53 bits is a double. -/
theorem nearest_dyadic {m e : ℤ} (hm : |m| ≤ 2 ^ 53) (he : -1074 ≤ e) :
    nearest (m * 2 ^ e) = m * 2 ^ e := by
  rcases hm.lt_or_eq with hlt | heq
  · exact nearest_dyadic_lt hlt he
  · obtain ⟨half, rfl⟩ : ∃ half, m = half * 2 := by
      rcases abs_eq (by norm_num) |>.mp heq with h | h
      · exact ⟨2 ^ 52, by rw [h]; norm_num⟩
      · exact ⟨-2 ^ 52, by rw [h]; norm_num⟩
    have hhalf : |half| < 2 ^ 53 := by
      rw [abs_mul] at heq
      norm_num at heq ⊢
      omega
    have h := nearest_dyadic_lt (e := e + 1) hhalf (by omega)
    rw [zpow_add_one₀ (by norm_num)] at h
    push_cast
    rwa [mul_assoc, mul_comm 2]

theorem nearest_intCast {z : ℤ} (hz : |z| ≤ 2 ^ 53) : nearest z = z := by
  simpa using nearest_dyadic (e := 0) hz (by norm_num)

theorem nearest_nonneg {x : ℚ} (h : 0 ≤ x) : 0 ≤ nearest x := by
  have hquotient : 0 ≤ roundHalfEven (x / 2 ^ unitExponent x) := by
    have hzero := roundHalfEven_mono (div_nonneg h (two_zpow_pos (unitExponent x)).le)
    rwa [show (0 : ℚ) = ((0 : ℤ) : ℚ) from rfl, roundHalfEven_intCast] at hzero
  exact mul_nonneg (by exact_mod_cast hquotient) (two_zpow_pos _).le

theorem nearest_mono_pos {x y : ℚ} (hx : 0 < x) (h : x ≤ y) : nearest x ≤ nearest y := by
  have hy := hx.trans_le h
  have hpowx := two_zpow_pos (unitExponent x)
  have hpowy := two_zpow_pos (unitExponent y)
  rcases (unitExponent_mono hx h).lt_or_eq with hlt | heq
  · -- a power of two lies between them
    have hbelow : roundHalfEven (x / 2 ^ unitExponent x) ≤ 2 ^ 53 := by
      have hquotient : x / 2 ^ unitExponent x ≤ ((2 ^ 53 : ℤ) : ℚ) := by
        rw [div_le_iff₀ hpowx]
        have hle := (lt_pow_unitExponent hx).le
        rw [zpow_add₀ (by norm_num)] at hle
        norm_num at hle ⊢
        linarith
      simpa only [roundHalfEven_intCast] using roundHalfEven_mono hquotient
    have habove : 2 ^ 52 ≤ roundHalfEven (y / 2 ^ unitExponent y) := by
      have hnormal : -1074 < unitExponent y := by
        have hmin : -1074 ≤ unitExponent x := le_max_right _ _
        omega
      have hquotient : ((2 ^ 52 : ℤ) : ℚ) ≤ y / 2 ^ unitExponent y := by
        rw [le_div_iff₀ hpowy]
        have hle := pow_unitExponent_le hy hnormal
        rw [zpow_add₀ (by norm_num)] at hle
        norm_num at hle ⊢
        linarith
      simpa only [roundHalfEven_intCast] using roundHalfEven_mono hquotient
    calc
      nearest x ≤ (2 ^ 53 : ℤ) * 2 ^ unitExponent x := by
        unfold nearest
        gcongr
      _ = (2 ^ 52 : ℤ) * 2 ^ (unitExponent x + 1) := by
        rw [zpow_add_one₀ (by norm_num)]
        push_cast
        ring
      _ ≤ (2 ^ 52 : ℤ) * 2 ^ unitExponent y := by
        gcongr
        · norm_num
        · omega
      _ ≤ nearest y := by
        unfold nearest
        gcongr
  · unfold nearest
    rw [← heq]
    gcongr
    exact roundHalfEven_mono (div_le_div_of_nonneg_right h hpowx.le)

/-- Rounding keeps the order. -/
theorem nearest_mono {x y : ℚ} (h : x ≤ y) : nearest x ≤ nearest y := by
  rcases lt_or_ge 0 x with hx | hx
  · exact nearest_mono_pos hx h
  have hnonpos : nearest x ≤ 0 := by
    have hneg := nearest_nonneg (x := -x) (by linarith)
    rw [nearest_neg] at hneg
    linarith
  rcases le_or_gt 0 y with hy | hy
  · exact hnonpos.trans (nearest_nonneg hy)
  · have hneg := nearest_mono_pos (x := -y) (y := -x) (by linarith) (by linarith)
    rw [nearest_neg, nearest_neg] at hneg
    linarith

end Rvx.Binary64
