import Rvx.Lib.Check
import Rvx.Web.ShadeWindow

/-!
# Linear shades

A linear domain is built from valid extrema, so nothing leaves its window; and the shade of a value is
its place between the extrema, cut to millionths.
-/

namespace Rvx.Web.Shading

open Core
open Check (foldlM_keeps)
open Binary64 (nearest nearest_mono nearest_zero nearest_intCast nearest_nonneg)

/-! ## Cells -/

/-- The text of a number, short enough to be decoded. -/
def Denotes (text : String) (x : ℚ) : Prop :=
  codeUnits text ≤ 1024 ∧ ∃ number, Number.read text.toList = some number ∧ x = number.toRat

def numberCell (text : String) : TableCell := ⟨.number, text, false⟩

theorem decimal_of_denotes {text : String} {x : ℚ} (h : Denotes text x) :
    ∃ d, decimal (some (numberCell text)) = .ok (some d) ∧ d.Valid ∧ d.value = x := by
  obtain ⟨hshort, number, hread, rfl⟩ := h
  refine ⟨ofNumber number text, ?_, valid_ofNumber hread hshort, value_ofNumber⟩
  simp [decimal, numberCell, hshort, hread]

theorem valid_of_decimal {cell : Option TableCell} {d : Decimal} (h : decimal cell = .ok (some d)) :
    d.Valid := by
  unfold decimal at h
  split at h
  · cases h
  · split_ifs at h with hkind hshort
    · cases h
    · split at h
      · cases h
      · rename_i number hread
        cases h
        exact valid_ofNumber hread hshort

theorem compare_lt {a b : Decimal} (ha : a.Valid) (hb : b.Valid) :
    compare a b < 0 ↔ a.value < b.value := by
  rw [compare_value ha hb, ← orderSign_compare]
  split_ifs with hlt hgt
  · simp [hlt]
  · simp [hlt]
  · simp [hlt]

theorem compare_gt {a b : Decimal} (ha : a.Valid) (hb : b.Valid) :
    0 < compare a b ↔ b.value < a.value := by
  rw [compare_value ha hb, ← orderSign_compare]
  split_ifs with hlt hgt
  · simp [hlt.not_gt]
  · simp [hgt]
  · simp [hgt]

theorem compare_eq {a b : Decimal} (ha : a.Valid) (hb : b.Valid) :
    compare a b = 0 ↔ a.value = b.value := by
  have hlt := compare_lt ha hb
  have hgt := compare_gt ha hb
  constructor
  · intro hzero
    rw [hzero] at hlt hgt
    exact le_antisymm (not_lt.mp fun h ↦ absurd (hgt.mpr h) (lt_irrefl 0))
      (not_lt.mp fun h ↦ absurd (hlt.mpr h) (lt_irrefl 0))
  · intro heq
    rw [heq] at hlt hgt
    have hle : ¬ compare a b < 0 := fun h ↦ lt_irrefl _ (hlt.mp h)
    have hge : ¬ 0 < compare a b := fun h ↦ lt_irrefl _ (hgt.mp h)
    omega

/-! ## Millionths -/

/-- The quotient of a place and the span, cut to millionths and rounded to a double. -/
def millionths (numerator span : ℤ) : ℚ :=
  nearest (((numerator * 1000000).tdiv span : ℤ) / 1000000)

section Millionths

variable {numerator span : ℤ}

theorem millionths_mono (hspan : 0 < span) {other : ℤ} (hle : numerator ≤ other)
    (hnonneg : 0 ≤ numerator) : millionths numerator span ≤ millionths other span := by
  have hcut : (numerator * 1000000).tdiv span ≤ (other * 1000000).tdiv span := by
    rw [Int.tdiv_eq_ediv_of_nonneg (by omega), Int.tdiv_eq_ediv_of_nonneg (by omega)]
    exact Int.ediv_le_ediv hspan (by omega)
  apply nearest_mono
  exact div_le_div_of_nonneg_right (by exact_mod_cast hcut) (by norm_num)

theorem millionths_zero : millionths 0 span = 0 := by simp [millionths, nearest_zero]

theorem millionths_self (hspan : 0 < span) : millionths span span = 1 := by
  have hcut : (span * 1000000).tdiv span = 1000000 := Int.mul_tdiv_cancel_left _ hspan.ne'
  have hone := nearest_intCast (z := 1) (by norm_num)
  rw [millionths, hcut]
  simpa using hone

theorem millionths_mem (hspan : 0 < span) (hnonneg : 0 ≤ numerator) (hle : numerator ≤ span) :
    0 ≤ millionths numerator span ∧ millionths numerator span ≤ 1 := by
  have hlow := millionths_mono hspan hnonneg le_rfl
  have hhigh := millionths_mono hspan hle hnonneg
  rw [millionths_zero] at hlow
  rw [millionths_self hspan] at hhigh
  exact ⟨hlow, hhigh⟩

/-- What is computed with doubles; nothing is clamped. -/
theorem clamp_dividedBy (hspan : 0 < span) (hnonneg : 0 ≤ numerator) (hle : numerator ≤ span) :
    clamp (dividedBy (JsNumber.ofRat ((numerator * 1000000).tdiv span : ℤ)) 1000000) =
      .finite (millionths numerator span) := by
  have hcut : 0 ≤ (numerator * 1000000).tdiv span ∧ (numerator * 1000000).tdiv span ≤ 1000000 := by
    rw [Int.tdiv_eq_ediv_of_nonneg (by omega)]
    exact ⟨Int.ediv_nonneg (by omega) hspan.le,
      Int.ediv_le_of_le_mul hspan (by nlinarith)⟩
  have hexact : nearest ((numerator * 1000000).tdiv span : ℤ) = ((numerator * 1000000).tdiv span : ℤ) :=
    nearest_intCast (abs_le.mpr ⟨by omega, by omega⟩)
  have hlarge : (1000000 : ℚ) < 2 ^ 1024 :=
    lt_of_lt_of_le (by norm_num : (1000000 : ℚ) < 2 ^ 20) (pow_le_pow_right₀ (by norm_num) (by norm_num))
  have hfinite : JsNumber.ofRat ((numerator * 1000000).tdiv span : ℤ) =
      .finite ((numerator * 1000000).tdiv span : ℤ) := by
    rw [JsNumber.ofRat_of_lt, hexact]
    rw [hexact, abs_of_nonneg (by exact_mod_cast hcut.1)]
    exact lt_of_le_of_lt (by exact_mod_cast hcut.2) hlarge
  obtain ⟨hlow, hhigh⟩ := millionths_mem hspan hnonneg hle
  have hquotient : JsNumber.ofRat (((numerator * 1000000).tdiv span : ℤ) / 1000000) =
      .finite (millionths numerator span) := by
    apply JsNumber.ofRat_of_lt
    change |millionths numerator span| < _
    rw [abs_of_nonneg hlow]
    exact hhigh.trans_lt (lt_trans (by norm_num) hlarge)
  rw [hfinite]
  change clamp (JsNumber.ofRat _) = _
  rw [hquotient, clamp, min_eq_right hhigh, max_eq_right hlow]

end Millionths

/-! ## The domain -/

/-- The extrema of a linear scale. -/
structure Extrema.Kept (extrema : Extrema) : Prop where
  minimum : ∀ d ∈ extrema.minimum, d.Valid
  maximum : ∀ d ∈ extrema.maximum, d.Valid
  anchor : extrema.anchor = none

section Domain

variable {number : String → JsNumber}
  {logDistance : Decimal → Decimal → Decimal → ℤ → Except String JsNumber}

theorem addRange_kept {low high : SnapshotAggregateValue} {extrema later : Extrema}
    (h : addRange .linear low high extrema = .ok later) (hkept : extrema.Kept) : later.Kept := by
  unfold addRange at h
  obtain ⟨first, ha, h⟩ := Check.bind_eq_ok.mp h
  obtain ⟨second, hb, h⟩ := Check.bind_eq_ok.mp h
  cases first with
  | none => cases h
  | some a =>
    cases second with
    | none => cases h
    | some b =>
      dsimp only at h
      by_cases horder : 0 < compare a b
      · rw [if_pos horder] at h
        cases h
      · rw [if_neg horder, addAnchor, if_neg (by simp)] at h
        obtain rfl := Except.ok.inj h
        refine ⟨fun d hd ↦ ?_, fun d hd ↦ ?_, hkept.anchor⟩
        · dsimp only at hd
          split_ifs at hd
          · exact Option.some.inj hd ▸ valid_of_decimal ha
          · exact hkept.minimum d hd
        · dsimp only at hd
          split_ifs at hd
          · exact Option.some.inj hd ▸ valid_of_decimal hb
          · exact hkept.maximum d hd

theorem addSeries_kept {series : SnapshotAggregateSeries} {extrema later : Extrema}
    (h : addSeries number .linear extrema series = .ok later) (hkept : extrema.Kept) :
    later.Kept := by
  unfold addSeries at h
  split at h
  · split_ifs at h
    · exact Except.ok.inj h ▸ hkept
    · exact addRange_kept h hkept
  · cases h

theorem foldlM_kept {series : List SnapshotAggregateSeries} {extrema : Extrema}
    (h : series.foldlM (addSeries number .linear) Extrema.empty = .ok extrema) : extrema.Kept :=
  foldlM_keeps (fun _ _ _ _ hkept hstep ↦ addSeries_kept hstep hkept)
    ⟨by simp [Extrema.empty], by simp [Extrema.empty], rfl⟩ h

/-- The bounds of a linear domain. -/
def windowBounds (minimum maximum : Decimal) : Bounds :=
  let origin := windowOrigin minimum maximum
  let low := truncate (minimum.at origin)
  ⟨minimum, maximum, origin, low, truncate (maximum.at origin) - low⟩

theorem boundedDomain_linear {minimum maximum : Decimal} (hmin : minimum.Valid)
    (hmax : maximum.Valid) (unavailable : JsNumber) :
    boundedDomain logDistance .linear unavailable none minimum maximum =
      .ok ⟨some (windowBounds minimum maximum), unavailable, .linear, none, 1, .finite 0⟩ := by
  rw [boundedDomain, scaled_minimum hmin hmax, scaled_maximum hmin hmax]
  rfl

theorem statusShadeDomain_linear {response : SnapshotAggregateResponse} {domain : ShadeDomain}
    (h : statusShadeDomain number logDistance response .linear = .ok domain) :
    domain.scale = .linear ∧ ∀ bounds ∈ domain.bounds, bounds.minimum.Valid ∧ bounds.maximum.Valid ∧
      bounds = windowBounds bounds.minimum bounds.maximum := by
  unfold statusShadeDomain at h
  obtain ⟨extrema, hfold, h⟩ := Check.bind_eq_ok.mp h
  have hkept := foldlM_kept hfold
  split_ifs at h
  dsimp only at h
  split at h
  · rename_i minimum maximum hminimum hmaximum
    have hmin := hkept.minimum minimum hminimum
    have hmax := hkept.maximum maximum hmaximum
    rw [hkept.anchor, boundedDomain_linear hmin hmax] at h
    cases h
    refine ⟨rfl, fun bounds hbounds ↦ ?_⟩
    cases hbounds
    exact ⟨hmin, hmax, rfl⟩
  · cases h
    exact ⟨rfl, fun bounds hbounds ↦ by cases hbounds⟩

/-! ## Errors -/

theorem decimal_ne_windowError {cell : Option TableCell} : decimal cell ≠ .error windowError := by
  unfold decimal
  split
  · simp
  · split_ifs
    · simp
    · split <;> simp [windowError]
    · split <;> simp [windowError]

theorem addSeries_ne_windowError {series : SnapshotAggregateSeries} {extrema : Extrema} :
    addSeries number .linear extrema series ≠ .error windowError := by
  have hincomplete : incompleteError ≠ windowError := by decide
  have hinvalid : invalidError ≠ windowError := by decide
  intro h
  unfold addSeries at h
  split at h
  · split_ifs at h
    · exact hincomplete (Except.error.inj h)
    · exact absurd (Except.error.inj h) (by decide)
    · unfold addRange at h
      rcases Check.bind_eq_error.mp h with h | ⟨first, -, h⟩
      · exact decimal_ne_windowError h
      rcases Check.bind_eq_error.mp h with h | ⟨second, -, h⟩
      · exact decimal_ne_windowError h
      split at h
      · split at h
        · exact hinvalid (Except.error.inj h)
        · rw [addAnchor, if_neg (by simp)] at h
          cases h
      · exact hinvalid (Except.error.inj h)
  · exact hincomplete (Except.error.inj h)

/-- Building a linear domain never leaves the window. -/
theorem statusShadeDomain_ne_windowError (response : SnapshotAggregateResponse) :
    statusShadeDomain number logDistance response .linear ≠ .error windowError := by
  have hfold {series : List SnapshotAggregateSeries} {extrema : Extrema} :
      series.foldlM (addSeries number .linear) extrema ≠ .error windowError := by
    induction series generalizing extrema with
    | nil => simp [pure, Except.pure]
    | cons one rest ih =>
      intro h
      rw [List.foldlM_cons] at h
      rcases Check.bind_eq_error.mp h with h | ⟨later, -, h⟩
      · exact addSeries_ne_windowError h
      · exact ih h
  intro h
  unfold statusShadeDomain at h
  rcases Check.bind_eq_error.mp h with h | ⟨extrema, hkept, h⟩
  · exact hfold h
  · split_ifs at h
    · exact absurd (Except.error.inj h) (by decide)
    · dsimp only at h
      split at h
      · rename_i minimum maximum hminimum hmaximum
        rw [(foldlM_kept hkept).anchor, boundedDomain_linear
          ((foldlM_kept hkept).minimum minimum hminimum)
          ((foldlM_kept hkept).maximum maximum hmaximum)] at h
        cases h
      · cases h

/-! ## Shades -/

/-- The shade of the value `x`. -/
def shadeAt (bounds : Bounds) (x : ℚ) : ℚ :=
  millionths (truncate (x / 10 ^ bounds.origin) - bounds.low) bounds.span

/-- What a linear scale makes of the values between its bounds. -/
structure LinearShades (logDistance : Decimal → Decimal → Decimal → ℤ → Except String JsNumber)
    (domain : ShadeDomain) (bounds : Bounds) (shade : ℚ → ℚ) : Prop where
  monotone : MonotoneOn shade (Set.Icc bounds.minimum.value bounds.maximum.value)
  minimum : shade bounds.minimum.value = 0
  maximum : shade bounds.maximum.value = 1
  /-- No text of a value between the bounds makes the scale throw. -/
  shades {text : String} {x : ℚ} (h : Denotes text x)
    (hx : x ∈ Set.Icc bounds.minimum.value bounds.maximum.value) :
    statusShade logDistance (some (numberCell text)) domain = .ok (some (.finite (shade x))) ∧
      0 ≤ shade x ∧ shade x ≤ 1

theorem span_pos {minimum maximum : Decimal} (hmin : minimum.Valid) (hmax : maximum.Valid)
    (hlt : minimum.value < maximum.value) : 0 < (windowBounds minimum maximum).span :=
  Int.sub_pos_of_lt (truncate_lt_truncate hmin hmax hlt)

theorem linearShades {domain : ShadeDomain} {minimum maximum : Decimal}
    (hmin : minimum.Valid) (hmax : maximum.Valid) (hlt : minimum.value < maximum.value)
    (hscale : domain.scale = .linear) (hbounds : domain.bounds = some (windowBounds minimum maximum)) :
    LinearShades logDistance domain (windowBounds minimum maximum)
      (shadeAt (windowBounds minimum maximum)) := by
  have hspan := span_pos hmin hmax hlt
  have hplace {x y : ℚ} (h : x ≤ y) : truncate (x / 10 ^ windowOrigin minimum maximum) ≤
      truncate (y / 10 ^ windowOrigin minimum maximum) :=
    truncate_mono (div_le_div_of_nonneg_right h (ten_zpow_pos _).le)
  have hmaximum : shadeAt (windowBounds minimum maximum) maximum.value = 1 := millionths_self hspan
  have hminimum : shadeAt (windowBounds minimum maximum) minimum.value = 0 := by
    have hzero : shadeAt (windowBounds minimum maximum) minimum.value =
        millionths (truncate (minimum.at (windowOrigin minimum maximum)) -
          truncate (minimum.at (windowOrigin minimum maximum)))
          (windowBounds minimum maximum).span := rfl
    rw [hzero, sub_self, millionths_zero]
  have hnonneg {x : ℚ} (h : minimum.value ≤ x) :
      0 ≤ truncate (x / 10 ^ windowOrigin minimum maximum) - (windowBounds minimum maximum).low :=
    sub_nonneg.mpr (hplace h)
  have hle {x : ℚ} (h : x ≤ maximum.value) :
      truncate (x / 10 ^ windowOrigin minimum maximum) - (windowBounds minimum maximum).low ≤
        (windowBounds minimum maximum).span := sub_le_sub_right (hplace h) _
  refine ⟨fun x hx y _ hxy ↦ ?_, hminimum, hmaximum, fun {text x} h hx ↦ ⟨?_, ?_⟩⟩
  · exact millionths_mono hspan (sub_le_sub_right (hplace hxy) _) (hnonneg hx.1)
  · obtain ⟨value, hdecimal, hvalid, rfl⟩ := decimal_of_denotes h
    have hcover : ¬ (compare value (windowBounds minimum maximum).minimum < 0 ∨
        0 < compare value (windowBounds minimum maximum).maximum) := by
      change ¬ (compare value minimum < 0 ∨ 0 < compare value maximum)
      rw [compare_lt hvalid hmin, compare_gt hvalid hmax, not_or, not_lt, not_lt]
      exact hx
    have hconstant : compare (windowBounds minimum maximum).minimum
        (windowBounds minimum maximum).maximum ≠ 0 := by
      change compare minimum maximum ≠ 0
      rw [ne_eq, compare_eq hmin hmax]
      exact hlt.ne
    have hscaled := scaled_between hmin hmax hvalid hx.1 hx.2
    have hlinear : linearShade value (windowBounds minimum maximum) =
        .ok (.finite (shadeAt (windowBounds minimum maximum) value.value)) := by
      have hclamp := clamp_dividedBy hspan (hnonneg hx.1) (hle hx.2)
      unfold linearShade
      change (scaled value (windowOrigin minimum maximum) >>= _) = _
      rw [hscaled]
      exact congrArg Except.ok hclamp
    simp only [statusShade, hdecimal, hbounds, bind, Except.bind]
    rw [if_neg hcover, if_neg hconstant, if_neg (not_le.mpr hspan), if_neg (by simp [hscale]), hlinear]
    rfl
  · exact millionths_mem hspan (hnonneg hx.1) (hle hx.2)

variable (number logDistance)

/-- Decoded decimals compare as numbers, and every linear domain with two different extrema shades the
values between them. -/
theorem shading_exact :
    (∀ text text' x y, Denotes text x → Denotes text' y → ∃ a b,
      decimal (some (numberCell text)) = .ok (some a) ∧
      decimal (some (numberCell text')) = .ok (some b) ∧ (compare a b < 0 ↔ x < y) ∧
      (compare a b = 0 ↔ x = y) ∧ (0 < compare a b ↔ y < x)) ∧
    (∀ response, statusShadeDomain number logDistance response .linear ≠ .error windowError) ∧
    ∀ response domain bounds, statusShadeDomain number logDistance response .linear = .ok domain →
      domain.bounds = some bounds → compare bounds.minimum bounds.maximum < 0 →
      0 < bounds.span ∧ ∃ shade, LinearShades logDistance domain bounds shade := by
  refine ⟨?_, statusShadeDomain_ne_windowError, ?_⟩
  · intro text text' x y hx hy
    obtain ⟨a, hdecimal, ha, rfl⟩ := decimal_of_denotes hx
    obtain ⟨b, hdecimal', hb, rfl⟩ := decimal_of_denotes hy
    exact ⟨a, b, hdecimal, hdecimal', compare_lt ha hb, compare_eq ha hb, compare_gt ha hb⟩
  · intro response domain bounds hdomain hbounds hlt
    obtain ⟨hscale, hvalid⟩ := statusShadeDomain_linear hdomain
    obtain ⟨hmin, hmax, hwindow⟩ := hvalid bounds hbounds
    rw [compare_lt hmin hmax] at hlt
    rw [hwindow] at hbounds ⊢
    exact ⟨span_pos hmin hmax hlt, _, linearShades hmin hmax hlt hscale hbounds⟩

end Domain

/-- One series with two extrema. -/
def sampleShades : SnapshotAggregateResponse where
  groups := [⟨[⟨fun name ↦
    if name = "shade_min" then some ⟨numberCell "0", none, .finite 5⟩
    else if name = "shade_max" then some ⟨numberCell "10", none, .finite 5⟩
    else if name = "count" then some ⟨numberCell "5", none, .finite 5⟩
    else none⟩]⟩]
  matchedRows := .finite 5

def sampleBounds : Bounds := ⟨⟨0, [0], 0, 1, "0"⟩, ⟨10, [1, 0], 0, 2, "10"⟩, -6, 0, 10000000⟩

def sampleDomain : ShadeDomain := ⟨some sampleBounds, .finite 0, .linear, none, 1, .finite 0⟩

theorem shading_exact_sample : 0 < sampleBounds.span ∧
    ∃ shade, LinearShades (fun _ _ _ _ ↦ .ok .nan) sampleDomain sampleBounds shade :=
  (shading_exact (fun _ ↦ .finite 5) fun _ _ _ _ ↦ .ok .nan).2.2 sampleShades sampleDomain
    sampleBounds (by decide +kernel) rfl (by decide)

end Rvx.Web.Shading
