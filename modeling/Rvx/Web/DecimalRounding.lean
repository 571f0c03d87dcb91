import Mathlib.Data.Rat.Floor
import Rvx.Web.DecimalDisplay

/-!
# Displayed decimals are rounded

The shown text is the numeral of the value rounded half away from zero.  The one exception is a zero
whose exponent moves it before its own digits: it keeps as many zeros.
-/

namespace Rvx.Web

open Core Decimal

/-! ## Digits -/

theorem digitsValue_append_list (digits rest : List (Fin 10)) :
    digitsValue (digits ++ rest) = digitsValue digits * 10 ^ rest.length + digitsValue rest :=
  natural_append_list digits rest

theorem digitsValue_cons (digit : Fin 10) (rest : List (Fin 10)) :
    digitsValue (digit :: rest) = digit.val * 10 ^ rest.length + digitsValue rest :=
  natural_cons digit rest

theorem digitsValue_lt (digits : List (Fin 10)) : digitsValue digits < 10 ^ digits.length :=
  natural_lt digits

theorem digitsValue_replicate (n : ℕ) : digitsValue (List.replicate n 0) = 0 := by
  induction n with
  | zero => rfl
  | succ n ih => rw [List.replicate_succ, digitsValue_cons, ih]; simp

theorem pow_le_digitsValue {digit : Fin 10} {rest : List (Fin 10)} (h : digit ≠ 0) :
    10 ^ rest.length ≤ digitsValue (digit :: rest) := by
  have hpos : 1 ≤ digit.val := Nat.one_le_iff_ne_zero.mpr fun hzero ↦ h (Fin.ext hzero)
  rw [digitsValue_cons]
  exact (Nat.le_mul_of_pos_left _ hpos).trans (Nat.le_add_right _ _)

theorem digitsValue_eq_zero {digits : List (Fin 10)} :
    digitsValue digits = 0 ↔ ∀ digit ∈ digits, digit = 0 := by
  induction digits with
  | nil => simp [digitsValue]
  | cons digit rest ih =>
    have hpow : 10 ^ rest.length ≠ 0 := by positivity
    rw [digitsValue_cons, Nat.add_eq_zero_iff, ih, List.forall_mem_cons, Nat.mul_eq_zero,
      or_iff_left hpow, Fin.val_eq_zero_iff]

/-- No superfluous leading zero. -/
def Canonical (digits : List (Fin 10)) : Prop :=
  digits ≠ [] ∧ (digits.head? = some 0 → digits = [0])

theorem canonical_decimalDigits (n : ℕ) : Canonical (Number.decimalDigits n) :=
  ⟨Number.decimalDigits_ne_nil n, Number.decimalDigits_canonical n⟩

/-- A canonical numeral is as long as its value demands. -/
theorem Canonical.length_le {digits other : List (Fin 10)} (h : Canonical digits)
    (hother : other ≠ []) (hle : digitsValue digits ≤ digitsValue other) :
    digits.length ≤ other.length := by
  obtain ⟨digit, rest, rfl⟩ := List.exists_cons_of_ne_nil h.1
  by_cases hzero : digit = 0
  · rw [h.2 (by rw [hzero]; rfl)]
    exact List.length_pos_iff.mpr hother
  · have hpow := (@pow_le_digitsValue _ rest hzero).trans_lt
      (hle.trans_lt (digitsValue_lt other))
    have hlt := (Nat.pow_lt_pow_iff_right (by norm_num : 1 < 10)).mp hpow
    rw [List.length_cons]
    exact hlt

theorem Canonical.eq_zero_iff {digits : List (Fin 10)} (h : Canonical digits) :
    digitsValue digits = 0 ↔ digits.head? = some 0 := by
  constructor
  · intro hzero
    obtain ⟨digit, rest, rfl⟩ := List.exists_cons_of_ne_nil h.1
    rw [digitsValue_eq_zero.mp hzero digit List.mem_cons_self]
    rfl
  · intro hhead
    rw [h.2 hhead]
    rfl

theorem length_decimalDigits {digits : List (Fin 10)} (h : Canonical digits) :
    (Number.decimalDigits (digitsValue digits)).length = digits.length := by
  have hvalue := Number.digitsValue_decimalDigits (digitsValue digits)
  have hcanonical := canonical_decimalDigits (digitsValue digits)
  exact le_antisymm (hcanonical.length_le h.1 hvalue.le) (h.length_le hcanonical.1 hvalue.ge)

theorem stripZeros_spec {digits : List (Fin 10)} (h : digits ≠ []) :
    Canonical (stripZeros digits) ∧ digitsValue (stripZeros digits) = digitsValue digits ∧
      (stripZeros digits).length ≤ digits.length := by
  induction digits with
  | nil => exact absurd rfl h
  | cons digit rest ih =>
    cases rest with
    | nil =>
      refine ⟨⟨by simp [stripZeros], fun hhead ↦ ?_⟩, rfl, le_rfl⟩
      simpa [stripZeros] using hhead
    | cons next rest =>
      rw [stripZeros]
      split_ifs with hzero
      · obtain ⟨hcanonical, hvalue, hlength⟩ := ih (by simp)
        refine ⟨hcanonical, ?_, by rw [List.length_cons]; omega⟩
        rw [hvalue, digitsValue_cons digit, hzero]
        simp
      · exact ⟨⟨by simp, fun hhead ↦ absurd (by simpa using hhead) hzero⟩, rfl, le_rfl⟩

/-! ## Rounding -/

/-- Half away from zero: the first digit that is cut decides. -/
theorem floor_cut (kept cut : List (Fin 10)) :
    ⌊(digitsValue (kept ++ cut) : ℚ) / 10 ^ cut.length + 1 / 2⌋₊ =
      digitsValue kept + if cut.head?.any (5 ≤ ·) then 1 else 0 := by
  have hpow : (0 : ℚ) < 10 ^ cut.length := by positivity
  rw [Nat.floor_eq_iff (by positivity), digitsValue_append_list]
  push_cast
  rw [add_div, mul_div_assoc, div_self hpow.ne', mul_one]
  cases cut with
  | nil => norm_num [digitsValue]
  | cons digit rest =>
    have hrest : (digitsValue rest : ℚ) < 10 ^ rest.length := by exact_mod_cast digitsValue_lt rest
    have hrest' : (0 : ℚ) < 10 ^ rest.length := by positivity
    have hvalue : (digitsValue (digit :: rest) : ℚ) / 10 ^ (digit :: rest).length =
        (digit.val + digitsValue rest / 10 ^ rest.length) / 10 := by
      rw [digitsValue_cons, List.length_cons, pow_succ]
      push_cast
      field_simp
    have hfraction : (digitsValue rest : ℚ) / 10 ^ rest.length < 1 := (div_lt_one hrest').mpr hrest
    have hfraction' : 0 ≤ (digitsValue rest : ℚ) / 10 ^ rest.length := by positivity
    rw [hvalue]
    generalize (digitsValue rest : ℚ) / 10 ^ rest.length = tail at hfraction hfraction'
    by_cases hfive : 5 ≤ digit
    · have hlow : (5 : ℚ) ≤ digit.val := by exact_mod_cast (Fin.le_def.mp hfive)
      have hhigh : (digit.val : ℚ) ≤ 9 := by exact_mod_cast Nat.le_of_lt_succ digit.isLt
      simp only [List.head?_cons, Option.any_some, hfive, decide_true, if_true]
      constructor <;> linarith
    · have hhigh : (digit.val : ℚ) ≤ 4 := by
        have hlt : digit.val < 5 := not_le.mp fun hle ↦ hfive (Fin.le_def.mpr hle)
        exact_mod_cast Nat.le_of_lt_succ hlt
      have hlow : (0 : ℚ) ≤ digit.val := by positivity
      simp only [List.head?_cons, Option.any_some, hfive, decide_false, Bool.false_eq_true, if_false]
      constructor <;> linarith

/-- Digits that are all cut, and more, leave nothing. -/
theorem floor_far {digits : List (Fin 10)} {places : ℕ} (h : digits.length < places) :
    ⌊(digitsValue digits : ℚ) / 10 ^ places + 1 / 2⌋₊ = 0 := by
  have hpow : (0 : ℚ) < 10 ^ places := by positivity
  have hlt : (digitsValue digits : ℚ) < 10 ^ digits.length := by exact_mod_cast digitsValue_lt digits
  have hten : (10 : ℚ) ^ digits.length * 10 ≤ 10 ^ places := by
    rw [← pow_succ]
    exact pow_le_pow_right₀ (by norm_num) h
  have hsmall : (digitsValue digits : ℚ) / 10 ^ places < 1 / 2 := by
    rw [div_lt_iff₀ hpow]
    linarith
  rw [Nat.floor_eq_zero]
  linarith

/-- The digits that are kept, rounded by the first one that is not. -/
theorem roundDigits_cut {digits : List (Fin 10)} (h : Canonical digits) {keep : ℕ}
    (hkeep : keep < digits.length) :
    let rounded := if 0 < keep then digits.take keep else [0]
    let result := if digits[keep]?.any (5 ≤ ·) then Number.decimalDigits (digitsValue rounded + 1)
      else rounded
    Canonical result ∧
      digitsValue result =
        ⌊(digitsValue digits : ℚ) / 10 ^ (digits.length - keep) + 1 / 2⌋₊ := by
  intro rounded result
  have hrounded : Canonical rounded ∧ digitsValue rounded = digitsValue (digits.take keep) := by
    rcases Nat.eq_zero_or_pos keep with hzero | hpos
    · have hnone : rounded = [0] := if_neg (by omega)
      rw [hnone, hzero]
      exact ⟨⟨by simp, fun _ ↦ rfl⟩, rfl⟩
    · have hsome : rounded = digits.take keep := if_pos hpos
      rw [hsome]
      refine ⟨⟨fun hnil ↦ ?_, fun hhead ↦ ?_⟩, rfl⟩
      · rcases List.take_eq_nil_iff.mp hnil with hzero | hempty
        · omega
        · exact h.1 hempty
      · rw [List.head?_take, if_neg (by omega)] at hhead
        rw [h.2 hhead, List.length_singleton] at hkeep
        omega
  have hcut : (digits.drop keep).head? = digits[keep]? := by simp
  have hlength : (digits.drop keep).length = digits.length - keep := List.length_drop
  have hfloor := floor_cut (digits.take keep) (digits.drop keep)
  rw [List.take_append_drop, hlength, hcut] at hfloor
  rw [hfloor]
  by_cases hfive : digits[keep]?.any (5 ≤ ·) = true
  · have hresult : result = Number.decimalDigits (digitsValue rounded + 1) := if_pos hfive
    rw [hresult, if_pos hfive, Number.digitsValue_decimalDigits, hrounded.2]
    exact ⟨canonical_decimalDigits _, rfl⟩
  · have hresult : result = rounded := if_neg hfive
    rw [hresult, if_neg hfive, hrounded.2]
    exact ⟨hrounded.1, rfl⟩

/-- Zeros behind the digits. -/
theorem digitsValue_zeros (digits : List (Fin 10)) (n : ℕ) :
    digitsValue (digits ++ List.replicate n 0) = digitsValue digits * 10 ^ n := by
  rw [digitsValue_append_list, digitsValue_replicate, List.length_replicate, Nat.add_zero]

section Shift

variable {digits : List (Fin 10)} {shift : JsNumber} {z : ℤ}

/-- The sum that is rounded, where the shift is exact. -/
theorem floor_shift (hz : 0 ≤ z) :
    ⌊(digitsValue digits : ℚ) * 10 ^ z + 1 / 2⌋₊ =
      digitsValue (digits ++ List.replicate z.toNat 0) := by
  lift z to ℕ using hz
  rw [digitsValue_zeros, zpow_natCast, Int.toNat_natCast, Nat.floor_eq_iff (by positivity)]
  push_cast
  constructor <;> linarith

/-- What rounding does at a shift that is far from where it is inexact. -/
theorem roundDigits_spec (h : Canonical digits) (hshift : JsNumber.Tracks (2 ^ 51) shift z)
    (hlength : digits.length < 2 ^ 50) :
    (roundDigits digits shift = none ∧ 0 ≤ z ∧ 4096 < z + digits.length) ∨
      ∃ rounded, roundDigits digits shift = some rounded ∧
        digitsValue rounded = ⌊(digitsValue digits : ℚ) * 10 ^ z + 1 / 2⌋₊ ∧
        (0 ≤ z → rounded = digits ++ List.replicate z.toNat 0) ∧ (z < 0 → Canonical rounded) := by
  have hcount : |(digits.length : ℤ)| = digits.length := abs_of_nonneg (by omega)
  have hkeep : JsNumber.Tracks (2 ^ 50) (shift.plus digits.length) (z + digits.length) := by
    have hplus : JsNumber.Tracks _ (shift.plus ((digits.length : ℤ) : ℚ)) _ :=
      hshift.plus (by norm_num) (by omega)
    exact hplus.mono (by omega)
  have hnonneg : shift.atLeast 0 = true ↔ 0 ≤ z := by
    have hiff := hshift.atLeast_iff (show -2 ^ 51 < (0 : ℤ) by norm_num) (by norm_num)
    rwa [Int.cast_zero] at hiff
  have hlong : (shift.plus digits.length).exceeds 4096 = true ↔ 4096 < z + digits.length := by
    have hiff := hkeep.exceeds_iff (show -2 ^ 50 ≤ (4096 : ℤ) by norm_num) (by norm_num)
    rwa [Int.cast_ofNat] at hiff
  have hsome : (shift.plus digits.length).exceeds 0 = true ↔ 0 < z + digits.length := by
    have hiff := hkeep.exceeds_iff (show -2 ^ 50 ≤ (0 : ℤ) by norm_num) (by norm_num)
    rwa [Int.cast_zero] at hiff
  have hnone : (shift.plus digits.length).atLeast 0 = true ↔ 0 ≤ z + digits.length := by
    have hiff := hkeep.atLeast_iff (show -2 ^ 50 < (0 : ℤ) by norm_num) (by norm_num)
    rwa [Int.cast_zero] at hiff
  unfold roundDigits
  by_cases hz : 0 ≤ z
  · rw [if_pos (hnonneg.mpr hz)]
    by_cases hfar : 4096 < z + digits.length
    · rw [if_pos (hlong.mpr hfar)]
      exact Or.inl ⟨rfl, hz, hfar⟩
    · rw [if_neg (mt hlong.mp hfar), hshift.toNat_eq (by rw [abs_of_nonneg hz]; omega)]
      exact Or.inr ⟨_, rfl, (floor_shift hz).symm, fun _ ↦ rfl, fun hneg ↦ absurd hz hneg.not_ge⟩
  · rw [if_neg (mt hnonneg.mp hz)]
    by_cases hcut : 0 ≤ z + digits.length
    · -- the cut is within the digits
      have hvalue := hkeep.toNat_eq (by rw [abs_of_nonneg hcut]; omega)
      obtain ⟨hcanonical, hfloor⟩ := roundDigits_cut h
        (show (z + digits.length).toNat < digits.length by omega)
      have hpower : (10 : ℚ) ^ z = (10 ^ (digits.length - (z + digits.length).toNat))⁻¹ := by
        rw [← zpow_natCast, ← zpow_neg]
        congr 1
        omega
      have hif : (if (shift.plus digits.length).exceeds 0 = true then
          digits.take (shift.plus digits.length).toNat else [0]) =
          if 0 < (z + digits.length).toNat then digits.take (z + digits.length).toNat else [0] := by
        rw [hvalue]
        exact if_congr (hsome.trans (by omega)) rfl rfl
      dsimp only
      rw [hif, hnone.mpr hcut, hvalue, Bool.true_and, hpower, ← div_eq_mul_inv, ← hfloor]
      refine Or.inr ⟨_, ?_, rfl, fun hnot ↦ absurd hnot hz, fun _ ↦ hcanonical⟩
      split_ifs <;> rfl
    · have hif : (if (shift.plus digits.length).exceeds 0 = true then
          digits.take (shift.plus digits.length).toNat else [0]) = [0] :=
        if_neg (mt hsome.mp (by omega))
      have hfalse : (shift.plus digits.length).atLeast 0 = false :=
        Bool.eq_false_iff.mpr (mt hnone.mp hcut)
      have hpower : (10 : ℚ) ^ z = (10 ^ (-z).toNat)⁻¹ := by
        rw [← zpow_natCast, ← zpow_neg]
        congr 1
        omega
      dsimp only
      rw [hif, hfalse, Bool.false_and, if_neg Bool.false_ne_true, hpower, ← div_eq_mul_inv,
        floor_far (by omega)]
      exact Or.inr ⟨[0], rfl, rfl, fun hnot ↦ absurd hnot hz, fun _ ↦ ⟨by simp, fun _ ↦ rfl⟩⟩

end Shift

/-! ## The numeral -/

section Numeral

variable {negative : Bool} {places : ℕ} {rounded : List (Fin 10)} {value : ℚ}

/-- Only a zero that takes more places than it has makes a numeral start with more than one zero. -/
theorem isNumeral_placePoint (hrounded : rounded ≠ [])
    (hzero : rounded.head? = some 0 → rounded.length ≤ places + 1)
    (hvalue : digitsValue rounded = roundedMagnitude value places)
    (hsign : roundedMagnitude value places ≠ 0 → (value < 0 ↔ negative = true)) :
    IsNumeral value places (String.ofList (placePoint negative places rounded)) := by
  have hpositive := List.length_pos_iff.mpr hrounded
  generalize hpadded : List.replicate (places + 1 - rounded.length) 0 ++ rounded = padded
  have hlength : padded.length = places + 1 - rounded.length + rounded.length := by
    rw [← hpadded, List.length_append, List.length_replicate]
  have hsum : digitsValue padded = digitsValue rounded := by
    rw [← hpadded, digitsValue_append_list, digitsValue_replicate, Nat.zero_mul, Nat.zero_add]
  have hhead : padded.head? = some 0 → padded.length = places + 1 := by
    rcases Nat.lt_or_ge rounded.length (places + 1) with hshort | hlong
    · exact fun _ ↦ by omega
    · intro hfirst
      rw [← hpadded, Nat.sub_eq_zero_of_le hlong, List.replicate_zero, List.nil_append] at hfirst
      have hle := hzero hfirst
      omega
  refine ⟨padded.take (padded.length - places), padded.drop (padded.length - places), ?_, ?_, ?_, ?_,
    ?_⟩
  · rw [← List.length_pos_iff, List.length_take]
    omega
  · intro hfirst
    rw [List.head?_take, if_neg (by omega)] at hfirst
    have hone := hhead hfirst
    obtain ⟨digit, rest, rfl⟩ := List.exists_cons_of_length_pos (by omega : 0 < padded.length)
    obtain rfl : digit = 0 := by simpa using hfirst
    rw [hone, Nat.add_sub_cancel_left]
    rfl
  · rw [List.length_drop]
    omega
  · rw [List.take_append_drop, hsum, hvalue]
  · have hany : rounded.any (· ≠ 0) = true ↔ roundedMagnitude value places ≠ 0 := by
      rw [← hvalue, ne_eq, digitsValue_eq_zero, List.any_eq_true]
      simp
    have hminus : (negative && rounded.any (· ≠ 0)) = true ↔
        value < 0 ∧ roundedMagnitude value places ≠ 0 := by
      rw [Bool.and_eq_true, hany]
      exact ⟨fun h ↦ ⟨(hsign h.2).mpr h.1, h.2⟩, fun h ↦ ⟨(hsign h.2).mp h.1, h.2⟩⟩
    rw [String.toList_ofList, placePoint, hpadded, List.append_assoc]
    congr 1
    · exact if_congr hminus rfl rfl
    · by_cases hplaces : places = 0
      · rw [if_pos hplaces, if_pos hplaces, List.append_nil, hplaces, Nat.sub_zero,
          List.take_length]
      · rw [if_neg hplaces, if_neg hplaces]

/-- Zeros that take more places than they have are no numeral. -/
theorem not_isNumeral_zeros {count : ℕ} (hcount : places + 1 < count) :
    ¬ IsNumeral 0 places
      (String.ofList (placePoint negative places (List.replicate count 0))) := by
  rintro ⟨whole, fraction, hne, hcanonical, hlength, -, hshown⟩
  have hplace : placePoint negative places (List.replicate count 0) =
      (List.replicate (count - places) '0') ++
        if places = 0 then [] else '.' :: List.replicate places '0' := by
    have hnone : (List.replicate count (0 : Fin 10)).any (· ≠ 0) = false := by simp
    have hnothing : places + 1 - count = 0 := by omega
    have hrest : count - (count - places) = places := by omega
    have hdigit : digitChar 0 = '0' := rfl
    unfold placePoint
    rw [hnone, Bool.and_false, if_neg Bool.false_ne_true, List.length_replicate, hnothing,
      List.replicate_zero, List.nil_append, List.nil_append, List.length_replicate,
      List.take_replicate, List.drop_replicate, min_eq_left (Nat.sub_le _ _), hrest]
    split_ifs with hplaces
    · rw [hplaces, Nat.sub_zero, List.append_nil, List.map_replicate, hdigit]
    · rw [List.map_replicate, List.map_replicate, hdigit]
  have hunsigned : ¬ ((0 : ℚ) < 0 ∧ roundedMagnitude 0 places ≠ 0) := fun h ↦ lt_irrefl _ h.1
  rw [String.toList_ofList, hplace, if_neg hunsigned, List.nil_append] at hshown
  have hchars := congrArg List.length hshown
  obtain ⟨more, hmore⟩ : ∃ more, count - places = more + 1 := ⟨count - places - 1, by omega⟩
  obtain ⟨digit, rest, rfl⟩ := List.exists_cons_of_ne_nil hne
  rw [hmore, List.replicate_succ, List.cons_append, List.map_cons, List.cons_append,
    List.cons.injEq] at hshown
  have hdigit : digit = 0 := digitChar_injective hshown.1.symm
  obtain ⟨-, rfl⟩ : digit = 0 ∧ rest = [] := by simpa using hcanonical (by rw [hdigit]; rfl)
  split_ifs at hchars <;> simp [hlength] at hchars <;> omega

end Numeral

/-! ## The text -/

namespace DecimalText

theorem matchText_eq {text : List Char} {number : DecimalText} (h : matchText text = some number) :
    ∃ rest, rest <:+ text ∧ matchUnsigned number.negative rest = some number := by
  have hsign {negative : Bool} {rest : List Char} (h : matchUnsigned negative rest = some number) :
      number.negative = negative := by
    obtain ⟨exponent, -, hparts⟩ := Option.bind_eq_some_iff.mp h
    split_ifs at hparts
    rw [← Option.some.inj hparts]
  unfold matchText at h
  split at h
  · rename_i rest
    exact ⟨rest, List.suffix_cons _ _, by rw [hsign h]; exact h⟩
  · exact ⟨text, List.suffix_rfl, by rw [hsign h]; exact h⟩

/-- The parts of a text. -/
theorem matchUnsigned_parts {negative : Bool} {text : List Char} {number : DecimalText}
    (h : matchUnsigned negative text = some number) :
    ∃ point tail, text = number.whole.map digitChar ++ (point ++ number.fraction.map digitChar ++ tail) ∧
      Number.readExponent tail = some number.exponent := by
  obtain ⟨exponent, hexponent, hparts⟩ := Option.bind_eq_some_iff.mp h
  split_ifs at hparts
  obtain rfl := Option.some.inj hparts
  have hwhole := (takeDigits_spec text).1
  rcases Number.readFraction_eq (takeDigits text).2 with ⟨rest, hrest, hread⟩ | hread
  · have hfraction := (takeDigits_spec rest).1
    refine ⟨['.'], (takeDigits rest).2, ?_, ?_⟩
    · rw [hread]
      dsimp only [Option.getD_some]
      rw [List.append_assoc, ← hfraction, List.singleton_append, ← hrest]
      exact hwhole
    · rw [hread] at hexponent
      exact hexponent
  · refine ⟨[], (takeDigits text).2, ?_, ?_⟩
    · rw [hread]
      simpa using hwhole
    · rw [hread] at hexponent
      exact hexponent

/-- The digits are part of the text. -/
theorem length_le {text : List Char} {number : DecimalText} (h : matchText text = some number) :
    (number.whole ++ number.fraction).length ≤ text.length := by
  obtain ⟨rest, hsuffix, hrest⟩ := matchText_eq h
  obtain ⟨point, tail, hparts, -⟩ := matchUnsigned_parts hrest
  have hle := hsuffix.length_le
  have hlength := congrArg List.length hparts
  simp only [List.length_append, List.length_map] at hlength ⊢
  omega

/-- An exponent is marked by a letter. -/
theorem exists_mark {text : List Char} {number : DecimalText} (h : matchText text = some number)
    (hexponent : number.exponent ≠ none) : 'e' ∈ text ∨ 'E' ∈ text := by
  obtain ⟨rest, hsuffix, hrest⟩ := matchText_eq h
  obtain ⟨point, tail, hparts, hread⟩ := matchUnsigned_parts hrest
  cases tail with
  | nil => exact absurd (Option.some.inj hread).symm hexponent
  | cons c tail =>
    have hmem : c ∈ text := hsuffix.subset (by rw [hparts]; simp)
    rw [Number.readExponent] at hread
    split_ifs at hread with hmark
    rcases hmark with rfl | rfl
    · exact Or.inl hmem
    · exact Or.inr hmem

end DecimalText

theorem not_isNumeral_of_mark {value : ℚ} {places : ℕ} {shown : String}
    (h : 'e' ∈ shown.toList ∨ 'E' ∈ shown.toList) : ¬ IsNumeral value places shown := by
  rintro ⟨whole, fraction, -, -, -, -, hshown⟩
  have hdigit {c : Char} {digits : List (Fin 10)} (hc : c ∈ digits.map digitChar) :
      c.isDigit = true := by
    obtain ⟨digit, -, rfl⟩ := List.mem_map.mp hc
    exact isDigit_digitChar digit
  have hchars : ∀ c ∈ shown.toList, c = '-' ∨ c = '.' ∨ c.isDigit = true := by
    intro c hc
    rw [hshown, List.mem_append, List.mem_append] at hc
    rcases hc with (hsign | hwhole) | hrest
    · split_ifs at hsign
      · exact Or.inl (List.mem_singleton.mp hsign)
      · cases hsign
    · exact Or.inr (Or.inr (hdigit hwhole))
    · split_ifs at hrest
      · cases hrest
      · rcases List.mem_cons.mp hrest with rfl | hmem
        · exact Or.inr (Or.inl rfl)
        · exact Or.inr (Or.inr (hdigit hmem))
  rcases h with h | h
  · exact absurd (hchars _ h) (by decide)
  · exact absurd (hchars _ h) (by decide)

/-! ## The display -/

section Display

variable {number : DecimalText} {places : ℕ}

theorem abs_toRat (number : DecimalText) : |number.toRat| =
    digitsValue (number.whole ++ number.fraction) *
      (10 : ℚ) ^ (number.exponentValue - number.fraction.length) := by
  unfold DecimalText.toRat
  dsimp only
  split_ifs
  · rw [abs_neg, abs_of_nonneg (by positivity)]
  · rw [abs_of_nonneg (by positivity)]

theorem toRat_eq_zero :
    number.toRat = 0 ↔ digitsValue (number.whole ++ number.fraction) = 0 := by
  rw [← abs_eq_zero, abs_toRat, mul_eq_zero, or_iff_left (by positivity), Nat.cast_eq_zero]

theorem toRat_neg (h : digitsValue (number.whole ++ number.fraction) ≠ 0) :
    number.toRat < 0 ↔ number.negative = true := by
  have hpos : (0 : ℚ) < digitsValue (number.whole ++ number.fraction) *
      (10 : ℚ) ^ (number.exponentValue - number.fraction.length) := by
    have hdigits : 0 < digitsValue (number.whole ++ number.fraction) := Nat.pos_of_ne_zero h
    positivity
  unfold DecimalText.toRat
  dsimp only
  split_ifs with hnegative
  · exact iff_of_true (by linarith) hnegative
  · exact iff_of_false (by linarith) hnegative

/-- The value at the last place that is shown. -/
theorem abs_toRat_mul (number : DecimalText) (places : ℕ) : |number.toRat| * 10 ^ places =
    digitsValue (stripZeros (number.whole ++ number.fraction)) *
      (10 : ℚ) ^ (number.exponentValue - number.fraction.length + places) := by
  have hne : number.whole ++ number.fraction ≠ [] := by simp [number.whole_ne_nil]
  rw [abs_toRat, (stripZeros_spec hne).2.1, zpow_add₀ (by norm_num), zpow_natCast, mul_assoc]

theorem canonical_zeros {digits : List (Fin 10)} (h : digits ≠ []) (hhead : digits.head? ≠ some 0)
    (n : ℕ) : Canonical (digits ++ List.replicate n 0) := by
  refine ⟨by simp [h], fun hfirst ↦ absurd ?_ hhead⟩
  rwa [List.head?_append_of_ne_nil _ h] at hfirst

theorem roundedMagnitude_zero (places : ℕ) : roundedMagnitude 0 places = 0 := by
  rw [roundedMagnitude, Nat.floor_eq_zero]
  norm_num

theorem expansionLength_zero (places : ℕ) : expansionLength 0 places = 1 := by
  rw [expansionLength, abs_zero, zero_mul, Nat.floor_zero]
  rfl

variable {rounded : List (Fin 10)}

/-- Where the rounded digits make a numeral, it is that of the value. -/
theorem isNumeral_rounded (hrounded : rounded ≠ [])
    (hzero : rounded.head? = some 0 → rounded.length ≤ places + 1)
    (hvalue : digitsValue rounded = roundedMagnitude number.toRat places) :
    IsNumeral number.toRat places (String.ofList (placePoint number.negative places rounded)) := by
  refine isNumeral_placePoint hrounded hzero hvalue fun hne ↦ toRat_neg fun hnone ↦ hne ?_
  rw [toRat_eq_zero.mpr hnone, roundedMagnitude_zero]

theorem isNumeral_canonical (hrounded : Canonical rounded)
    (hvalue : digitsValue rounded = roundedMagnitude number.toRat places) :
    IsNumeral number.toRat places (String.ofList (placePoint number.negative places rounded)) := by
  refine isNumeral_rounded hrounded.1 (fun hfirst ↦ ?_) hvalue
  rw [hrounded.2 hfirst, List.length_singleton]
  omega

/-- The exponent, moved by the fraction and by the places, stays exact where it matters. -/
theorem tracks_shift {fraction places : ℕ} (hfraction : fraction < 2 ^ 50) (hplaces : places ≤ 20)
    (exponent : ℤ) :
    JsNumber.Tracks (2 ^ 51) (((JsNumber.ofRat exponent).plus (-fraction)).plus places)
      (exponent - fraction + places) := by
  have hstart := JsNumber.tracks_ofRat (show (0 : ℤ) ≤ 2 ^ 53 by norm_num) le_rfl exponent
  have hcount : |(-fraction : ℤ)| = fraction := by rw [abs_neg, abs_of_nonneg (by omega)]
  have hmoved : JsNumber.Tracks (2 ^ 52) ((JsNumber.ofRat exponent).plus (-fraction))
      (exponent - fraction) := by
    have hplus := hstart.plus le_rfl (show |(-fraction : ℤ)| ≤ 2 ^ 53 by omega)
    rw [Int.cast_neg, Int.cast_natCast, ← sub_eq_add_neg] at hplus
    exact hplus.mono (by omega)
  have hplaces' : |(places : ℤ)| = places := abs_of_nonneg (by omega)
  have hplus := hmoved.plus (by norm_num) (show |(places : ℤ)| ≤ 2 ^ 52 by omega)
  rw [Int.cast_natCast] at hplus
  exact hplus.mono (by omega)

theorem displayPlaces_displays {text : String}
    (hmatch : DecimalText.matchText text.toList = some number)
    (hlength : text.toList.length < 2 ^ 50) (hplaces : places ≤ 20) :
    ∃ shown, displayPlaces text places = .ok shown ∧
      (Displays text number.toRat places shown ↔
        number.toRat ≠ 0 ∨ number.exponentValue ≤ number.fraction.length) := by
  have hle := DecimalText.length_le hmatch
  have hne : number.whole ++ number.fraction ≠ [] := by simp [number.whole_ne_nil]
  obtain ⟨hcanonical, hvalue, hshorter⟩ := stripZeros_spec hne
  have hmagnitude := abs_toRat_mul number places
  have hfraction : number.fraction.length < 2 ^ 50 := by
    rw [List.length_append] at hle
    omega
  have hspec := roundDigits_spec hcanonical (tracks_shift hfraction hplaces number.exponentValue)
    (by omega)
  have hzero : number.toRat = 0 ↔ (stripZeros (number.whole ++ number.fraction)).head? = some 0 := by
    rw [toRat_eq_zero, ← hvalue]
    exact hcanonical.eq_zero_iff
  unfold displayPlaces
  rw [hmatch]
  dsimp only
  generalize stripZeros (number.whole ++ number.fraction) = digits at *
  generalize hz : number.exponentValue - number.fraction.length + (places : ℤ) = z at *
  rcases hspec with ⟨hnone, hnonneg, hfar⟩ | ⟨rounded, hsome, hrounded, hlong, hshort⟩
  · rw [hnone]
    refine ⟨text, rfl, ?_⟩
    by_cases hhead : digits.head? = some 0
    · -- a zero that is not shown has an exponent
      have hdigits := hcanonical.2 hhead
      rw [hdigits, List.length_singleton] at hfar
      have hmark := DecimalText.exists_mark hmatch fun hnothing ↦ by
        rw [DecimalText.exponentValue, hnothing, Option.elim_none] at hz
        omega
      refine iff_of_false ?_ ?_
      · rw [hzero.mpr hhead]
        rintro (⟨-, hlong⟩ | hnumeral)
        · rw [expansionLength_zero] at hlong
          omega
        · exact not_isNumeral_of_mark hmark hnumeral
      · rintro (hvalue | hsmall)
        · exact hvalue (hzero.mpr hhead)
        · omega
    · refine iff_of_true (Or.inl ⟨rfl, ?_⟩) (Or.inl (mt hzero.mp hhead))
      lift z to ℕ using hnonneg
      have hwhole : (digitsValue digits : ℚ) * 10 ^ (z : ℤ) =
          (digitsValue (digits ++ List.replicate z 0) : ℕ) := by
        rw [digitsValue_zeros, zpow_natCast]
        push_cast
        rfl
      rw [expansionLength, hmagnitude, hwhole, Nat.floor_natCast,
        length_decimalDigits (canonical_zeros hcanonical.1 hhead z), List.length_append,
        List.length_replicate]
      omega
  · rw [hsome]
    refine ⟨_, rfl, ?_⟩
    have hrounded : digitsValue rounded = roundedMagnitude number.toRat places := by
      rw [hrounded, roundedMagnitude, hmagnitude]
    rcases lt_or_ge z 0 with hneg | hnonneg
    · refine iff_of_true (Or.inr (isNumeral_canonical (hshort hneg) hrounded)) (Or.inr ?_)
      omega
    obtain rfl := hlong hnonneg
    by_cases hhead : digits.head? = some 0
    · have hzeros : digits ++ List.replicate z.toNat 0 = List.replicate (z.toNat + 1) 0 := by
        rw [hcanonical.2 hhead]
        rfl
      rw [hzeros] at hrounded ⊢
      by_cases hsmall : z ≤ places
      · refine iff_of_true (Or.inr (isNumeral_rounded (by simp) (fun _ ↦ ?_) hrounded))
          (Or.inr (by omega))
        rw [List.length_replicate]
        omega
      · refine iff_of_false ?_ ?_
        · rw [hzero.mpr hhead]
          rintro (⟨-, hlong⟩ | hnumeral)
          · rw [expansionLength_zero] at hlong
            omega
          · exact not_isNumeral_zeros (by omega) hnumeral
        · rintro (hvalue | hsmall')
          · exact hvalue (hzero.mpr hhead)
          · omega
    · exact iff_of_true (Or.inr (isNumeral_canonical (canonical_zeros hcanonical.1 hhead _) hrounded))
        (Or.inl (mt hzero.mp hhead))

/-- For some places from 0 to 20 the text is displayed as it should be if and only if it is no zero
or its exponent is at most the number of its fraction digits. -/
theorem decimalDisplay_displays {text : String}
    (hmatch : DecimalText.matchText text.toList = some number)
    (hlength : text.toList.length < 2 ^ 50) (hplaces : places ≤ 20) :
    ∃ shown, decimalDisplay text (some (.finite places)) = .ok shown ∧
      (Displays text number.toRat places shown ↔
        number.toRat ≠ 0 ∨ number.exponentValue ≤ number.fraction.length) := by
  have hrange : ¬ ((places : ℚ).den ≠ 1 ∨ (places : ℚ) < 0 ∨ (places : ℚ) > 20) := by
    have hle : (places : ℚ) ≤ 20 := by exact_mod_cast hplaces
    have hnonneg : (0 : ℚ) ≤ places := by positivity
    rintro (hden | hneg | hlarge)
    · exact hden (Rat.den_natCast places)
    · exact hneg.not_ge hnonneg
    · exact hlarge.not_ge hle
  rw [decimalDisplay, if_neg hrange, Rat.num_natCast, Int.toNat_natCast]
  exact displayPlaces_displays hmatch hlength hplaces

/-- The parts of 12.5e1. -/
def sampleDecimal : DecimalText :=
  ⟨false, [1, 2], [5], some ⟨false, none, [1], (by decide : ¬ ([1] : List (Fin 10)) = [])⟩, by decide⟩

theorem decimalDisplay_displays_sample :
    ∃ shown, decimalDisplay "12.5e1" (some (.finite (2 : ℕ))) = .ok shown ∧
      (Displays "12.5e1" sampleDecimal.toRat 2 shown ↔
        sampleDecimal.toRat ≠ 0 ∨ sampleDecimal.exponentValue ≤ sampleDecimal.fraction.length) :=
  decimalDisplay_displays (by decide) (by decide) (by decide)

/-- The zero 0e1 is shown as 00. -/
theorem decimalDisplay_long_zero :
    ¬ ∀ (text : String) (number : DecimalText) (places : ℕ),
      DecimalText.matchText text.toList = some number → places ≤ 20 →
      ∃ shown, decimalDisplay text (some (.finite places)) = .ok shown ∧
        Displays text number.toRat places shown := by
  intro h
  have hmatch : DecimalText.matchText "0e1".toList =
      some ⟨false, [0], [], some ⟨false, none, [1], by decide⟩, by decide⟩ := by decide
  obtain ⟨shown, hshown, hdisplays⟩ := h _ _ 0 hmatch (by decide)
  have hzeros : decimalDisplay "0e1" (some (.finite (0 : ℕ))) =
      .ok (String.ofList (placePoint false 0 (List.replicate 2 0))) := by decide +kernel
  have hvalue : DecimalText.toRat ⟨false, [0], [], some ⟨false, none, [1], by decide⟩, by decide⟩ =
      0 := by decide +kernel
  obtain rfl := Except.ok.inj (hshown.symm.trans hzeros)
  rw [hvalue] at hdisplays
  rcases hdisplays with ⟨-, hlong⟩ | hnumeral
  · rw [expansionLength_zero] at hlong
    omega
  · exact not_isNumeral_zeros (by decide) hnumeral

end Display

end Rvx.Web
