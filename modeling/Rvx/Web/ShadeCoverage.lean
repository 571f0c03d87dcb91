import Rvx.Web.LinearShades

/-!
# Shades of covered values

The extrema of the series cover every number of the dataset, so a domain can be built of them and no
number of a page is outside of it.  On a logarithmic scale the distances are sums and differences of
decimals, cut to a window that none of them leaves; only the logarithms of the results are rounded,
and these are a parameter.
-/

namespace Rvx.Web.Shading

open Core

/-! ## Logarithmic distances -/

/-- The sum or the difference, with the digits that matter. -/
def combine (a b : Decimal) (subtract : Bool) : Except String Decimal :=
  if b.coefficient = 0 then .ok a
  else if a.coefficient = 0 then
    .ok (if subtract then { b with coefficient := -b.coefficient } else b)
  else do
    let magnitude := if a.magnitude > b.magnitude then a.magnitude else b.magnitude
    let exponent := magnitude - (max a.digits.length b.digits.length + 12 : ℕ)
    let left ← scaled a exponent
    let right ← scaled b exponent
    let coefficient := left + (if subtract then -1 else 1) * right
    let digits := Number.decimalDigits coefficient.natAbs
    return ⟨coefficient, digits, exponent, exponent + digits.length, ""⟩

section Distance

variable (logarithm : Decimal → Decimal → ℤ → JsNumber)

/-- `log1p` of a quotient, in shared units. -/
def logRatio (numerator denominator : Decimal) (unit : ℤ) : JsNumber :=
  if numerator.coefficient = 0 then .finite 0 else logarithm numerator denominator unit

def logDistance (low high anchor : Decimal) (unit : ℤ) : Except String JsNumber :=
  if 0 ≤ low.coefficient then do
    let numerator ← combine high low true
    let denominator ← combine anchor low false
    return logRatio logarithm numerator denominator unit
  else if high.coefficient ≤ 0 then do
    let numerator ← combine high low true
    let denominator ← combine anchor (absolute high) false
    return logRatio logarithm numerator denominator unit
  else
    .ok (plus (logRatio logarithm (absolute low) anchor unit) (logRatio logarithm high anchor unit))

end Distance

theorem valid_absolute {d : Decimal} (h : d.Valid) : (absolute d).Valid := by
  unfold absolute
  split_ifs with hneg
  · refine ⟨h.digits_ne_nil, fun hne ↦ h.canonical fun hzero ↦ hne ?_, ?_, h.magnitude, h.short⟩
    · dsimp only
      rw [hzero, neg_zero]
    · dsimp only
      rw [Int.natAbs_neg]
      exact h.natAbs
  · exact h

theorem value_absolute (d : Decimal) : (absolute d).value = |d.value| := by
  unfold absolute
  split_ifs with hneg
  · rw [abs_of_neg (d.value_neg_iff.mpr hneg), Decimal.value, Decimal.value]
    push_cast
    ring
  · rw [abs_of_nonneg (not_lt.mp (mt d.value_neg_iff.mp hneg))]

/-- Two decimals end within the window of the greater one. -/
theorem combine_ok {a b : Decimal} (ha : a.Valid) (hb : b.Valid) (subtract : Bool) :
    ∃ result, combine a b subtract = .ok result := by
  have hwindow {d : Decimal} (h : d.Valid) {magnitude : ℤ} (hmagnitude : d.magnitude ≤ magnitude) :
      scaled d (magnitude - (max a.digits.length b.digits.length + 12 : ℕ)) =
        .ok (truncate (d.at (magnitude - (max a.digits.length b.digits.length + 12 : ℕ)))) := by
    apply scaled_eq h
    intro _
    have hdigits := List.length_pos_iff.mpr h.digits_ne_nil
    have hspec := h.magnitude
    have hshort := max_le ha.short hb.short
    omega
  unfold combine
  by_cases hbzero : b.coefficient = 0
  · exact ⟨a, if_pos hbzero⟩
  rw [if_neg hbzero]
  by_cases hazero : a.coefficient = 0
  · exact ⟨_, if_pos hazero⟩
  rw [if_neg hazero]
  dsimp only
  by_cases hgt : a.magnitude > b.magnitude
  · rw [if_pos hgt, hwindow ha le_rfl, hwindow hb hgt.le]
    exact ⟨_, rfl⟩
  · rw [if_neg hgt, hwindow ha (not_lt.mp hgt), hwindow hb le_rfl]
    exact ⟨_, rfl⟩

theorem logDistance_ok (logarithm : Decimal → Decimal → ℤ → JsNumber) {low high anchor : Decimal}
    (hlow : low.Valid) (hhigh : high.Valid) (hanchor : anchor.Valid) (unit : ℤ) :
    ∃ distance, logDistance logarithm low high anchor unit = .ok distance := by
  obtain ⟨numerator, hnumerator⟩ := combine_ok hhigh hlow true
  unfold logDistance
  rw [hnumerator]
  split_ifs
  · obtain ⟨denominator, hdenominator⟩ := combine_ok hanchor hlow false
    rw [hdenominator]
    exact ⟨_, rfl⟩
  · obtain ⟨denominator, hdenominator⟩ := combine_ok hanchor (valid_absolute hhigh) false
    rw [hdenominator]
    exact ⟨_, rfl⟩
  · exact ⟨_, rfl⟩

/-! ## Extremes -/

/-- The absolute values of the numbers other than zero. -/
def magnitudes (known : List ℚ) : List ℚ := (known.filter fun x ↦ x ≠ 0).map fun x ↦ |x|

theorem magnitudes_append (known more : List ℚ) :
    magnitudes (known ++ more) = magnitudes known ++ magnitudes more := by
  rw [magnitudes, List.filter_append, List.map_append]
  rfl

theorem mem_magnitudes {known : List ℚ} {x : ℚ} (hx : x ∈ known) (hne : x ≠ 0) :
    |x| ∈ magnitudes known :=
  List.mem_map_of_mem (List.mem_filter.mpr ⟨hx, decide_eq_true hne⟩)

theorem pos_of_magnitudes {known : List ℚ} {x : ℚ} (h : x ∈ magnitudes known) : 0 < x := by
  obtain ⟨y, hy, rfl⟩ := List.mem_map.mp h
  exact abs_pos.mpr (of_decide_eq_true (List.mem_filter.mp hy).2)

/-- A decimal is the number that is least under a key, if there is a number. -/
structure Extreme (key : ℚ → ℚ) (found : Option Decimal) (known : List ℚ) : Prop where
  none_iff : found = none ↔ known = []
  least : ∀ d ∈ found, d.Valid ∧ d.value ∈ known ∧ ∀ x ∈ known, key d.value ≤ key x

theorem extreme_nil (key : ℚ → ℚ) : Extreme key none [] := by
  refine ⟨iff_of_true rfl rfl, ?_⟩
  rintro d ⟨⟩

/-- The least number of more ones replaces the decimal if it is before it. -/
theorem Extreme.append {key : ℚ → ℚ} {found : Option Decimal} {known more : List ℚ}
    (h : Extreme key found known) {before : Decimal → Decimal → Bool}
    (hbefore : ∀ a b, a.Valid → b.Valid → (before a b = true ↔ key a.value < key b.value))
    {a : Decimal} (ha : a.Valid) (hmem : a.value ∈ more) (hleast : ∀ x ∈ more, key a.value ≤ key x) :
    Extreme key (if found.all (before a) then some a else found) (known ++ more) := by
  have hne : known ++ more ≠ [] := List.ne_nil_of_mem (List.mem_append_right known hmem)
  cases found with
  | none =>
    rw [Option.all_none, if_pos rfl]
    refine ⟨iff_of_false (by simp) hne, ?_⟩
    rintro _ ⟨⟩
    rw [h.none_iff.mp rfl, List.nil_append]
    exact ⟨ha, hmem, hleast⟩
  | some d =>
    obtain ⟨hd, hdmem, hdleast⟩ := h.least d rfl
    rw [Option.all_some]
    split_ifs with hless
    · have hlt := (hbefore a d ha hd).mp hless
      refine ⟨iff_of_false (by simp) hne, ?_⟩
      rintro _ ⟨⟩
      refine ⟨ha, List.mem_append_right known hmem, fun x hx ↦ ?_⟩
      obtain hx | hx := List.mem_append.mp hx
      · exact hlt.le.trans (hdleast x hx)
      · exact hleast x hx
    · have hle := not_lt.mp (mt (hbefore a d ha hd).mpr hless)
      refine ⟨iff_of_false (by simp) hne, ?_⟩
      rintro _ ⟨⟩
      refine ⟨hd, List.mem_append_left more hdmem, fun x hx ↦ ?_⟩
      obtain hx | hx := List.mem_append.mp hx
      · exact hdleast x hx
      · exact hle.trans (hleast x hx)

/-! ## Ranges of series -/

/-- A cell shows, as a short text, the number that is least under a key. -/
def ShowsLeast (key : ℚ → ℚ) (cell : TableCell) (known : List ℚ) : Prop :=
  ∃ text, cell = numberCell text ∧ ∃ x ∈ known, Denotes text x ∧ ∀ y ∈ known, key x ≤ key y

theorem decimal_of_showsLeast {key : ℚ → ℚ} {cell : TableCell} {known : List ℚ}
    (h : ShowsLeast key cell known) : ∃ d, decimal (some cell) = .ok (some d) ∧ d.Valid ∧
      d.value ∈ known ∧ ∀ y ∈ known, key d.value ≤ key y := by
  obtain ⟨text, rfl, x, hx, hdenotes, hleast⟩ := h
  obtain ⟨d, hdecimal, hvalid, rfl⟩ := decimal_of_denotes hdenotes
  exact ⟨d, hdecimal, hvalid, hx, hleast⟩

/-- What a series tells of the numbers of its rows. -/
structure Ranges (number : String → JsNumber) (series : SnapshotAggregateSeries)
    (known : List ℚ) : Prop where
  counted : ∃ rows : ℕ, known.length ≤ rows ∧ rows < 2 ^ 53 ∧
    Shading.counted number series = .finite rows
  shown : ∃ low high, series.measures "shade_min" = some low ∧
    series.measures "shade_max" = some high ∧
    low.count = .finite known.length ∧ high.count = .finite known.length ∧
    (known = [] → low.value.kind = .missing ∧ high.value.kind = .missing) ∧
    (known ≠ [] → ShowsLeast id low.value known ∧ ShowsLeast Neg.neg high.value known) ∧
    (magnitudes known ≠ [] → ∃ cell, low.minimumMagnitude = some cell ∧
      ShowsLeast id cell (magnitudes known))

/-- The extrema cover these numbers. -/
structure Extrema.Covers (scale : Scale) (extrema : Extrema) (known : List ℚ) : Prop where
  minimum : Extreme id extrema.minimum known
  maximum : Extreme Neg.neg extrema.maximum known
  anchor : scale = .log → Extreme id extrema.anchor (magnitudes known)
  unanchored : scale = .linear → extrema.anchor = none
  numeric : extrema.numeric = .finite known.length

theorem covers_empty (scale : Scale) : Extrema.empty.Covers scale [] :=
  ⟨extreme_nil id, extreme_nil Neg.neg, fun _ ↦ extreme_nil id, fun _ ↦ rfl, rfl⟩

section Steps

variable {number : String → JsNumber} {scale : Scale} {extrema : Extrema} {known more : List ℚ}
  {series : SnapshotAggregateSeries}

theorem plus_finite {m n : ℕ} (h : m + n ≤ 2 ^ 53) :
    plus (.finite m) (.finite n) = .finite (m + n : ℕ) := by
  have hsum : |((m + n : ℕ) : ℤ)| ≤ 2 ^ 53 := by
    rw [abs_of_nonneg (by positivity)]
    exact_mod_cast h
  have hexact := JsNumber.ofRat_intCast hsum
  rw [Int.cast_natCast, Nat.cast_add] at hexact
  rw [Nat.cast_add, ← hexact]
  rfl

theorem isSafeInteger_finite {n : ℕ} (h : n < 2 ^ 53) : isSafeInteger (.finite n) = true := by
  have hcast : (n : ℚ) + 1 ≤ 2 ^ 53 := by exact_mod_cast h
  have hsize : |(n : ℚ)| ≤ 2 ^ 53 - 1 := by
    rw [abs_of_nonneg (Nat.cast_nonneg n)]
    linarith
  unfold isSafeInteger
  dsimp only
  rw [decide_eq_true hsize, Rat.den_natCast]
  rfl

theorem below_iff (a b : Decimal) (ha : a.Valid) (hb : b.Valid) :
    decide (compare a b < 0) = true ↔ id a.value < id b.value := by
  rw [decide_eq_true_eq]
  exact compare_lt ha hb

theorem above_iff (a b : Decimal) (ha : a.Valid) (hb : b.Valid) :
    decide (0 < compare a b) = true ↔ -a.value < -b.value := by
  rw [decide_eq_true_eq, neg_lt_neg_iff]
  exact compare_gt ha hb

/-- The anchor of a logarithmic scale is the smallest magnitude. -/
theorem addAnchor_ok {low : SnapshotAggregateValue} {a b : Decimal} {anchor : Option Decimal}
    (ha : a.Valid) (hb : b.Valid) (hamem : a.value ∈ more) (hbmem : b.value ∈ more)
    (hleast : ∀ x ∈ more, a.value ≤ x) (hgreatest : ∀ x ∈ more, x ≤ b.value)
    (hmagnitude : magnitudes more ≠ [] → ∃ cell, low.minimumMagnitude = some cell ∧
      ShowsLeast id cell (magnitudes more))
    (h : Extreme id anchor (magnitudes known)) :
    ∃ later, addAnchor .log low a b anchor = .ok later ∧
      Extreme id later (magnitudes (known ++ more)) := by
  rw [magnitudes_append]
  unfold addAnchor
  by_cases hzero : a.coefficient = 0 ∧ b.coefficient = 0
  · have hnone : magnitudes more = [] := by
      apply List.eq_nil_iff_forall_not_mem.mpr
      intro x hx
      obtain ⟨y, hy, rfl⟩ := List.mem_map.mp hx
      obtain ⟨hymem, hyne⟩ := List.mem_filter.mp hy
      have hlow := hleast y hymem
      have hhigh := hgreatest y hymem
      rw [a.value_eq_zero_iff.mpr hzero.1] at hlow
      rw [b.value_eq_zero_iff.mpr hzero.2] at hhigh
      exact of_decide_eq_true hyne (le_antisymm hhigh hlow)
    rw [if_neg (by simp [hzero]), hnone, List.append_nil]
    exact ⟨anchor, rfl, h⟩
  · -- the series shows a magnitude, which is that of an extremum at most
    have hextremum : a.coefficient ≠ 0 ∨ b.coefficient ≠ 0 := by tauto
    have hmem {d : Decimal} (hd : d.value ∈ more) (hne : d.coefficient ≠ 0) :
        |d.value| ∈ magnitudes more := mem_magnitudes hd (mt d.value_eq_zero_iff.mp hne)
    have hne : magnitudes more ≠ [] := by
      cases hextremum with
      | inl hane => exact List.ne_nil_of_mem (hmem hamem hane)
      | inr hbne => exact List.ne_nil_of_mem (hmem hbmem hbne)
    obtain ⟨cell, hcell, hshows⟩ := hmagnitude hne
    obtain ⟨magnitude, hdecimal, hvalid, hvalue, hsmallest⟩ := decimal_of_showsLeast hshows
    have hpos : ¬ magnitude.coefficient ≤ 0 :=
      not_le.mpr (magnitude.value_pos_iff.mp (pos_of_magnitudes hvalue))
    have hwithin : ¬ (0 < compare magnitude (absolute a) ∧ 0 < compare magnitude (absolute b)) := by
      rw [compare_gt hvalid (valid_absolute ha), compare_gt hvalid (valid_absolute hb),
        value_absolute, value_absolute]
      rintro ⟨hbelow, hbelow'⟩
      cases hextremum with
      | inl hane => exact absurd hbelow (not_lt.mpr (hsmallest _ (hmem hamem hane)))
      | inr hbne => exact absurd hbelow' (not_lt.mpr (hsmallest _ (hmem hbmem hbne)))
    have hreplaced := h.append below_iff hvalid hvalue hsmallest
    rw [if_pos ⟨rfl, hextremum⟩, hcell, hdecimal]
    refine ⟨_, ?_, hreplaced⟩
    simp only [bind, Except.bind]
    rw [if_neg (not_or.mpr ⟨hpos, hwithin⟩)]
    split_ifs <;> rfl

theorem addRange_ok {low high : SnapshotAggregateValue} (hcovers : extrema.Covers scale known)
    (hlow : ShowsLeast id low.value more) (hhigh : ShowsLeast Neg.neg high.value more)
    (hcount : low.count = .finite more.length) (hsmall : known.length + more.length ≤ 2 ^ 53)
    (hmagnitude : magnitudes more ≠ [] → ∃ cell, low.minimumMagnitude = some cell ∧
      ShowsLeast id cell (magnitudes more)) :
    ∃ later, addRange scale low high extrema = .ok later ∧ later.Covers scale (known ++ more) := by
  obtain ⟨a, hdecimal, ha, hamem, hleast⟩ := decimal_of_showsLeast hlow
  obtain ⟨b, hdecimal', hb, hbmem, hgreatest⟩ := decimal_of_showsLeast hhigh
  have hordered : ¬ 0 < compare a b := by
    rw [compare_gt ha hb]
    exact not_lt.mpr (hleast _ hbmem)
  have hupper : ∀ x ∈ more, x ≤ b.value := fun x hx ↦ neg_le_neg_iff.mp (hgreatest x hx)
  obtain ⟨anchor, hanchor, hsmallest, hunanchored⟩ : ∃ later,
      addAnchor scale low a b extrema.anchor = .ok later ∧
      (scale = .log → Extreme id later (magnitudes (known ++ more))) ∧
      (scale = .linear → later = none) := by
    cases scale with
    | linear =>
      refine ⟨extrema.anchor, ?_, by simp, fun _ ↦ hcovers.unanchored rfl⟩
      rw [addAnchor, if_neg (by simp)]
    | log =>
      obtain ⟨later, hlater, hextreme⟩ :=
        addAnchor_ok ha hb hamem hbmem hleast hupper hmagnitude (hcovers.anchor rfl)
      exact ⟨later, hlater, fun _ ↦ hextreme, by simp⟩
  unfold addRange
  rw [hdecimal, hdecimal']
  simp only [bind, Except.bind]
  rw [if_neg hordered, hanchor]
  refine ⟨_, rfl, ?_⟩
  constructor
  · exact hcovers.minimum.append below_iff ha hamem hleast
  · exact hcovers.maximum.append above_iff hb hbmem hgreatest
  · exact hsmallest
  · exact hunanchored
  · dsimp only
    rw [hcovers.numeric, hcount, plus_finite hsmall, List.length_append]

theorem addSeries_ok (hcovers : extrema.Covers scale known) (h : Ranges number series more)
    (hsmall : known.length + more.length ≤ 2 ^ 53) :
    ∃ later, addSeries number scale extrema series = .ok later ∧
      later.Covers scale (known ++ more) := by
  obtain ⟨rows, hrows, hrange, hcounted⟩ := h.counted
  obtain ⟨low, high, hlow, hhigh, hlowCount, hhighCount, hempty, hshown, hmagnitude⟩ := h.shown
  have hcomplete : (!isSafeInteger low.count || greater (.finite 0) low.count ||
      low.count ≠ high.count || greater low.count (Shading.counted number series)) = false := by
    rw [hcounted, hlowCount, hhighCount, isSafeInteger_finite (by omega)]
    simp [greater, JsNumber.exceeds, hrows]
  unfold addSeries
  rw [hlow, hhigh]
  dsimp only
  rw [hcomplete, if_neg Bool.false_ne_true, hlowCount]
  by_cases hnone : more = []
  · obtain ⟨hmissing, hmissing'⟩ := hempty hnone
    rw [hnone, List.append_nil, if_pos (by simp), if_neg (by simp [hmissing, hmissing'])]
    exact ⟨extrema, rfl, hcovers⟩
  · have hpositive : JsNumber.finite more.length ≠ .finite 0 := by
      simpa using hnone
    rw [if_neg hpositive]
    exact addRange_ok hcovers (hshown hnone).1 (hshown hnone).2 hlowCount hsmall hmagnitude

/-- The fold over all series covers their numbers. -/
theorem foldlM_covers {all : List SnapshotAggregateSeries} {lists : List (List ℚ)}
    (hcovers : extrema.Covers scale known) (h : List.Forall₂ (Ranges number) all lists)
    (hsmall : known.length + lists.flatten.length ≤ 2 ^ 53) :
    ∃ later, all.foldlM (addSeries number scale) extrema = .ok later ∧
      later.Covers scale (known ++ lists.flatten) := by
  induction h generalizing extrema known with
  | nil =>
    rw [List.flatten_nil, List.append_nil]
    exact ⟨extrema, rfl, hcovers⟩
  | @cons series more rest lists hseries _ ih =>
    rw [List.flatten_cons, List.length_append] at hsmall
    obtain ⟨next, hnext, hmore⟩ := addSeries_ok hcovers hseries (by omega)
    obtain ⟨later, hlater, hall⟩ := ih hmore (by
      rw [List.length_append]
      omega)
    refine ⟨later, ?_, ?_⟩
    · rw [List.foldlM_cons, hnext]
      exact hlater
    · rwa [List.flatten_cons, ← List.append_assoc]

end Steps

/-! ## Shades -/

/-- The domain covers these numbers. -/
structure ShadeDomain.Covers (scale : Scale) (domain : ShadeDomain) (known : List ℚ) : Prop where
  sameScale : domain.scale = scale
  unbounded : domain.bounds = none → known = []
  bounds : ∀ bounds ∈ domain.bounds, ∃ minimum maximum : Decimal, minimum.Valid ∧ maximum.Valid ∧
    minimum.value ∈ known ∧ maximum.value ∈ known ∧
    (∀ x ∈ known, minimum.value ≤ x ∧ x ≤ maximum.value) ∧ bounds = windowBounds minimum maximum
  anchor : scale = .log → Extreme id domain.anchor (magnitudes known)

section Domain

variable {number : String → JsNumber}
  {logDistance : Decimal → Decimal → Decimal → ℤ → Except String JsNumber}

/-- The logarithmic distance of decoded decimals can be computed. -/
def Measures (logDistance : Decimal → Decimal → Decimal → ℤ → Except String JsNumber) : Prop :=
  ∀ low high anchor : Decimal, low.Valid → high.Valid → anchor.Valid → ∀ unit,
    ∃ distance, logDistance low high anchor unit = .ok distance

theorem boundedDomain_ok (hmeasures : Measures logDistance) (scale : Scale) (unavailable : JsNumber)
    {anchor : Option Decimal} {minimum maximum : Decimal} (hmin : minimum.Valid)
    (hmax : maximum.Valid) (hanchor : ∀ d ∈ anchor, d.Valid) :
    ∃ domain, boundedDomain logDistance scale unavailable anchor minimum maximum = .ok domain ∧
      domain.scale = scale ∧ domain.bounds = some (windowBounds minimum maximum) ∧
      domain.anchor = anchor := by
  rw [boundedDomain, scaled_minimum hmin hmax, scaled_maximum hmin hmax]
  cases anchor with
  | none => exact ⟨_, rfl, rfl, rfl, rfl⟩
  | some anchor =>
    obtain ⟨span, hspan⟩ := hmeasures minimum maximum anchor hmin hmax (hanchor anchor rfl)
      (if windowMagnitude minimum maximum - anchor.magnitude > 1 then
        windowMagnitude minimum maximum - anchor.magnitude else 1)
    simp only [bind, Except.bind, Option.map_some, Option.getD_some]
    rw [hspan]
    exact ⟨_, rfl, rfl, rfl, rfl⟩

theorem statusShadeDomain_ok (hmeasures : Measures logDistance) (scale : Scale)
    {response : SnapshotAggregateResponse} {lists : List (List ℚ)} {rows : ℕ}
    (h : List.Forall₂ (Ranges number) (response.groups.flatMap SnapshotAggregateGroup.series) lists)
    (hrows : response.matchedRows = .finite rows) (hle : lists.flatten.length ≤ rows)
    (hsmall : rows ≤ 2 ^ 53) :
    ∃ domain, statusShadeDomain number logDistance response scale = .ok domain ∧
      domain.Covers scale lists.flatten := by
  obtain ⟨extrema, hfold, hcovers⟩ := foldlM_covers (covers_empty scale) h (by
    rw [List.length_nil, Nat.zero_add]
    exact hle.trans hsmall)
  rw [List.nil_append] at hcovers
  have hwithin : greater extrema.numeric response.matchedRows = false := by
    rw [hcovers.numeric, hrows]
    have hcast : ¬ (rows : ℚ) < lists.flatten.length := not_lt.mpr (Nat.cast_le.mpr hle)
    exact decide_eq_false hcast
  unfold statusShadeDomain
  rw [hfold]
  simp only [bind, Except.bind]
  rw [hwithin, if_neg Bool.false_ne_true]
  cases hminimum : extrema.minimum with
  | none =>
    refine ⟨_, rfl, rfl, fun _ ↦ hcovers.minimum.none_iff.mp hminimum, ?_, hcovers.anchor⟩
    rintro bounds ⟨⟩
  | some minimum =>
    obtain ⟨hmin, hminMem, hlow⟩ := hcovers.minimum.least minimum hminimum
    cases hmaximum : extrema.maximum with
    | none =>
      rw [hcovers.maximum.none_iff.mp hmaximum] at hminMem
      cases hminMem
    | some maximum =>
      obtain ⟨hmax, hmaxMem, hhigh⟩ := hcovers.maximum.least maximum hmaximum
      have hbounds : ∀ x ∈ lists.flatten, minimum.value ≤ x ∧ x ≤ maximum.value := fun x hx ↦
        ⟨hlow x hx, neg_le_neg_iff.mp (hhigh x hx)⟩
      have hvalid : ∀ d ∈ extrema.anchor, d.Valid := by
        intro d hd
        cases scale with
        | linear =>
          rw [hcovers.unanchored rfl] at hd
          cases hd
        | log => exact ((hcovers.anchor rfl).least d hd).1
      obtain ⟨domain, hdomain, hspec⟩ := boundedDomain_ok hmeasures scale
        (minus response.matchedRows extrema.numeric) hmin hmax hvalid
      refine ⟨domain, hdomain, hspec.1, ?_, ?_, ?_⟩
      · rw [hspec.2.1]
        rintro ⟨⟩
      · rw [hspec.2.1]
        rintro bounds ⟨⟩
        exact ⟨minimum, maximum, hmin, hmax, hminMem, hmaxMem, hbounds, rfl⟩
      · rw [hspec.2.2]
        exact hcovers.anchor

/-- A number that the domain covers has a shade. -/
theorem statusShade_ok (hmeasures : Measures logDistance) {scale : Scale} {domain : ShadeDomain}
    {known : List ℚ} (hcovers : domain.Covers scale known) {text : String} {x : ℚ}
    (h : Denotes text x) (hx : x ∈ known) :
    ∃ shade, statusShade logDistance (some (numberCell text)) domain = .ok (some shade) := by
  obtain ⟨value, hdecimal, hvalid, rfl⟩ := decimal_of_denotes h
  unfold statusShade
  rw [hdecimal]
  simp only [bind, Except.bind]
  cases hbounds : domain.bounds with
  | none =>
    rw [hcovers.unbounded hbounds] at hx
    cases hx
  | some bounds =>
    obtain ⟨minimum, maximum, hmin, hmax, hminMem, hmaxMem, hbetween, rfl⟩ :=
      hcovers.bounds bounds hbounds
    obtain ⟨hlow, hhigh⟩ := hbetween value.value hx
    have hcover : ¬ (compare value (windowBounds minimum maximum).minimum < 0 ∨
        0 < compare value (windowBounds minimum maximum).maximum) := by
      change ¬ (compare value minimum < 0 ∨ 0 < compare value maximum)
      rw [compare_lt hvalid hmin, compare_gt hvalid hmax, not_or, not_lt, not_lt]
      exact ⟨hlow, hhigh⟩
    dsimp only
    rw [if_neg hcover]
    by_cases hconstant : compare minimum maximum = 0
    · exact ⟨_, if_pos hconstant⟩
    have hlt : minimum.value < maximum.value :=
      lt_of_le_of_ne (hlow.trans hhigh) (mt (compare_eq hmin hmax).mpr hconstant)
    have hspan := span_pos hmin hmax hlt
    have hlinear : ∃ shade, linearShade value (windowBounds minimum maximum) = .ok shade := by
      have hscaled := scaled_between hmin hmax hvalid hlow hhigh
      unfold linearShade
      change ∃ shade, (scaled value (windowOrigin minimum maximum) >>= _) = .ok shade
      rw [hscaled]
      exact ⟨_, rfl⟩
    obtain ⟨shade, hshade⟩ := hlinear
    have hnotConstant : ¬ compare (windowBounds minimum maximum).minimum
        (windowBounds minimum maximum).maximum = 0 := hconstant
    rw [if_neg hnotConstant, if_neg (not_le.mpr hspan), hcovers.sameScale]
    cases scale with
    | linear =>
      rw [if_neg (by simp), hshade]
      exact ⟨_, rfl⟩
    | log =>
      have hextreme := hcovers.anchor rfl
      rw [if_pos rfl]
      cases hanchor : domain.anchor with
      | none =>
        -- different extrema are not both zero, so there is a magnitude
        have hnone := hextreme.none_iff.mp hanchor
        have hzero {y : ℚ} (hy : y ∈ known) : y = 0 := by
          by_contra hne
          have hmem := mem_magnitudes hy hne
          rw [hnone] at hmem
          cases hmem
        rw [hzero hminMem, hzero hmaxMem] at hlt
        exact absurd hlt (lt_irrefl 0)
      | some anchor =>
        obtain ⟨hanchorValid, -, hleast⟩ := hextreme.least anchor hanchor
        have hwithin : ¬ (value.coefficient ≠ 0 ∧ compare (absolute value) anchor < 0) := by
          rintro ⟨hne, hbelow⟩
          rw [compare_lt (valid_absolute hvalid) hanchorValid, value_absolute] at hbelow
          exact absurd hbelow (not_lt.mpr
            (hleast _ (mem_magnitudes hx (mt value.value_eq_zero_iff.mp hne))))
        dsimp only
        rw [if_neg hwithin]
        split_ifs
        · obtain ⟨distance, hdistance⟩ :=
            hmeasures minimum value anchor hmin hvalid hanchorValid domain.logUnit
          change ∃ shade, (logDistance minimum value anchor domain.logUnit >>= _) = .ok (some shade)
          rw [hdistance]
          exact ⟨_, rfl⟩
        · rw [hshade]
          exact ⟨_, rfl⟩

end Domain

end Rvx.Web.Shading
