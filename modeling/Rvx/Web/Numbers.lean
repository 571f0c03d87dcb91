import Rvx.Lib.Binary64Order

/-!
# Numbers of a script

A number is a double, so sums are rounded.  Counters far below 2 ^ 53 stay exact, and a sum that left
that range stays on its side of it.
-/

namespace Rvx.Web

open Binary64 (nearest nearest_intCast nearest_mono nearest_zero nearest_nonneg)

/-- A `Number`; the two zeros are one value. -/
inductive JsNumber where
  | nan
  | infinite (negative : Bool)
  | finite (value : ℚ)
deriving DecidableEq

namespace JsNumber

/-- The nearest double. -/
def ofRat (x : ℚ) : JsNumber :=
  match Binary64.round x with
  | some value => .finite value
  | none => .infinite (x < 0)

/-- The sum with a finite number. -/
def plus (a : JsNumber) (b : ℚ) : JsNumber :=
  match a with
  | .finite value => ofRat (value + b)
  | other => other

/-- `bound <= a`. -/
def atLeast (bound : ℚ) (a : JsNumber) : Bool :=
  match a with
  | .nan => false
  | .infinite negative => !negative
  | .finite value => bound ≤ value

/-- `a > bound`. -/
def exceeds (bound : ℚ) (a : JsNumber) : Bool :=
  match a with
  | .nan => false
  | .infinite negative => !negative
  | .finite value => bound < value

/-- `a <= bound`. -/
def atMost (bound : ℚ) (a : JsNumber) : Bool :=
  match a with
  | .nan => false
  | .infinite negative => negative
  | .finite value => value ≤ bound

/-- A count that is used as one. -/
def toNat : JsNumber → ℕ
  | .finite value => value.num.toNat
  | _ => 0

theorem ofRat_of_lt {x : ℚ} (h : |nearest x| < 2 ^ 1024) : ofRat x = .finite (nearest x) := by
  rw [ofRat, Binary64.round_eq, if_pos h]

/-- A count is itself or, with the number it stands for, beyond a bound. -/
inductive Tracks (bound : ℤ) : JsNumber → ℤ → Prop where
  | exact {z : ℤ} : Tracks bound (.finite z) z
  | above {a : JsNumber} {z : ℤ} (hz : bound ≤ z) (ha : a.atLeast bound = true) : Tracks bound a z
  | below {a : JsNumber} {z : ℤ} (hz : z ≤ -bound) (ha : a.atMost (-bound) = true) :
    Tracks bound a z

theorem atLeast_ofRat {bound : ℤ} (hbound : |bound| ≤ 2 ^ 53) {x : ℚ} (h : bound ≤ x) :
    (ofRat x).atLeast bound = true := by
  have hle : (bound : ℚ) ≤ nearest x := nearest_intCast hbound ▸ nearest_mono h
  rw [ofRat, Binary64.round_eq]
  split_ifs with hfinite
  · exact decide_eq_true hle
  · have hnonneg : ¬ x < 0 := by
      intro hneg
      have hsmall : nearest x ≤ 0 := nearest_zero ▸ nearest_mono hneg.le
      rw [abs_of_nonpos hsmall, not_lt] at hfinite
      have hrange : -(2 ^ 53 : ℚ) ≤ bound := by exact_mod_cast (abs_le.mp hbound).1
      have hlarge : (2 : ℚ) ^ 53 < 2 ^ 1024 := pow_lt_pow_right₀ (by norm_num) (by norm_num)
      generalize (2 : ℚ) ^ 1024 = huge at hfinite hlarge
      linarith
    simp [atLeast, hnonneg]

theorem atMost_ofRat {bound : ℤ} (hbound : |bound| ≤ 2 ^ 53) {x : ℚ} (h : x ≤ bound) :
    (ofRat x).atMost bound = true := by
  have hle : nearest x ≤ bound := nearest_intCast hbound ▸ nearest_mono h
  rw [ofRat, Binary64.round_eq]
  split_ifs with hfinite
  · exact decide_eq_true hle
  · have hneg : x < 0 := by
      by_contra hnonneg
      have hsmall : 0 ≤ nearest x := nearest_nonneg (not_lt.mp hnonneg)
      rw [abs_of_nonneg hsmall, not_lt] at hfinite
      have hrange : (bound : ℚ) ≤ 2 ^ 53 := by exact_mod_cast (abs_le.mp hbound).2
      have hlarge : (2 : ℚ) ^ 53 < 2 ^ 1024 := pow_lt_pow_right₀ (by norm_num) (by norm_num)
      generalize (2 : ℚ) ^ 1024 = huge at hfinite hlarge
      linarith
    simp [atMost, hneg]

theorem ofRat_intCast {z : ℤ} (h : |z| ≤ 2 ^ 53) : ofRat z = .finite z := by
  have hsize : |(z : ℚ)| ≤ 2 ^ 53 := by exact_mod_cast h
  have hlarge : (2 : ℚ) ^ 53 < 2 ^ 1024 := pow_lt_pow_right₀ (by norm_num) (by norm_num)
  have hfinite : |nearest z| < 2 ^ 1024 := by
    rw [nearest_intCast h]
    exact hsize.trans_lt hlarge
  rw [ofRat_of_lt hfinite, nearest_intCast h]

/-- An integer is tracked by the nearest double. -/
theorem tracks_ofRat {bound : ℤ} (hpos : 0 ≤ bound) (hbound : bound ≤ 2 ^ 53) (z : ℤ) :
    Tracks bound (ofRat z) z := by
  have habs : |bound| ≤ 2 ^ 53 := by rwa [abs_of_nonneg hpos]
  rcases le_or_gt |z| (2 ^ 53) with hsmall | hlarge
  · rw [ofRat_intCast hsmall]
    exact .exact
  · rcases lt_abs.mp hlarge with hz | hz
    · exact .above (by omega) (atLeast_ofRat habs (by exact_mod_cast (by omega : bound ≤ z)))
    · refine .below (by omega) ?_
      have hmost : (ofRat z).atMost ((-bound : ℤ) : ℚ) = true :=
        atMost_ofRat (by rwa [abs_neg]) (by exact_mod_cast (by omega : z ≤ -bound))
      exact_mod_cast hmost

theorem Tracks.mono {bound bound' : ℤ} {a : JsNumber} {z : ℤ} (h : Tracks bound a z)
    (hle : bound' ≤ bound) : Tracks bound' a z := by
  have hcast : (bound' : ℚ) ≤ bound := by exact_mod_cast hle
  cases h with
  | exact => exact .exact
  | above hz ha =>
    refine .above (by omega) ?_
    cases a with
    | finite value => exact decide_eq_true (hcast.trans (of_decide_eq_true ha))
    | _ => exact ha
  | below hz ha =>
    refine .below (by omega) ?_
    cases a with
    | finite value => exact decide_eq_true ((of_decide_eq_true ha).trans (neg_le_neg hcast))
    | _ => exact ha

/-- Adding a small integer moves the bound by at most as much. -/
theorem Tracks.plus {bound : ℤ} {a : JsNumber} {z step : ℤ} (h : Tracks bound a z)
    (hbound : bound ≤ 2 ^ 53) (hstep : |step| ≤ bound) :
    Tracks (bound - |step|) (a.plus step) (z + step) := by
  have habs := abs_nonneg step
  have hlow := neg_abs_le step
  have hhigh := le_abs_self step
  have hrange : |(bound - |step|)| ≤ 2 ^ 53 := by
    rw [abs_of_nonneg (by omega)]
    omega
  cases h with
  | exact =>
    have hsum : Tracks (bound - |step|) (ofRat ((z + step : ℤ) : ℚ)) (z + step) :=
      tracks_ofRat (by omega) (by omega) (z + step)
    rw [Int.cast_add] at hsum
    exact hsum
  | above hz ha =>
    refine .above (by omega) ?_
    cases a with
    | nan => cases ha
    | infinite negative => exact ha
    | finite value =>
      have hvalue : (bound : ℚ) ≤ value := of_decide_eq_true ha
      have hcast : -((|step| : ℤ) : ℚ) ≤ step := by exact_mod_cast hlow
      refine atLeast_ofRat hrange ?_
      rw [Int.cast_sub]
      linarith
  | below hz ha =>
    refine .below (by omega) ?_
    cases a with
    | nan => cases ha
    | infinite negative => exact ha
    | finite value =>
      have hvalue : value ≤ -(bound : ℚ) := of_decide_eq_true ha
      have hcast : (step : ℚ) ≤ (|step| : ℤ) := by exact_mod_cast hhigh
      have hmost : (ofRat (value + step)).atMost ((-(bound - |step|) : ℤ) : ℚ) = true := by
        refine atMost_ofRat (by rwa [abs_neg]) ?_
        rw [Int.cast_neg, Int.cast_sub]
        linarith
      rw [Int.cast_neg] at hmost
      exact hmost

/-- Counts within the bound are compared exactly. -/
theorem Tracks.atLeast_iff {bound low : ℤ} {a : JsNumber} {z : ℤ} (h : Tracks bound a z)
    (hlow : -bound < low) (hhigh : low ≤ bound) : a.atLeast low = true ↔ low ≤ z := by
  have hbound : (low : ℚ) ≤ bound := by exact_mod_cast hhigh
  have hneg : -(bound : ℚ) < low := by exact_mod_cast hlow
  cases h with
  | exact => simp [atLeast]
  | above hz ha =>
    refine iff_of_true ?_ (by omega)
    cases a with
    | nan => cases ha
    | infinite negative => exact ha
    | finite value => exact decide_eq_true (hbound.trans (of_decide_eq_true ha))
  | below hz ha =>
    refine iff_of_false ?_ (by omega)
    cases a with
    | nan => simp [atLeast]
    | infinite negative => simpa [atLeast, atMost] using ha
    | finite value =>
      have hvalue : value ≤ -(bound : ℚ) := of_decide_eq_true ha
      simp only [atLeast, decide_eq_true_eq, not_le]
      linarith

theorem Tracks.exceeds_iff {bound low : ℤ} {a : JsNumber} {z : ℤ} (h : Tracks bound a z)
    (hlow : -bound ≤ low) (hhigh : low < bound) : a.exceeds low = true ↔ low < z := by
  have hbound : (low : ℚ) < bound := by exact_mod_cast hhigh
  have hneg : -(bound : ℚ) ≤ low := by exact_mod_cast hlow
  cases h with
  | exact => simp [exceeds]
  | above hz ha =>
    refine iff_of_true ?_ (by omega)
    cases a with
    | nan => cases ha
    | infinite negative => exact ha
    | finite value => exact decide_eq_true (hbound.trans_le (of_decide_eq_true ha))
  | below hz ha =>
    refine iff_of_false ?_ (by omega)
    cases a with
    | nan => simp [exceeds]
    | infinite negative => simpa [exceeds, atMost] using ha
    | finite value =>
      have hvalue : value ≤ -(bound : ℚ) := of_decide_eq_true ha
      simp only [exceeds, decide_eq_true_eq, not_lt]
      linarith

theorem Tracks.toNat_eq {bound : ℤ} {a : JsNumber} {z : ℤ} (h : Tracks bound a z)
    (hz : |z| < bound) : a.toNat = z.toNat := by
  obtain ⟨hlow, hhigh⟩ := abs_lt.mp hz
  cases h with
  | exact => simp [toNat]
  | above hz' ha => omega
  | below hz' ha => omega

end JsNumber

end Rvx.Web
