import Mathlib.Data.Nat.Cast.Field
import Rvx.Web.TimeBounds

/-!
# What is accepted as a duration

The scanner skips text between its matches, and every skipped text is checked to be white space.  So
an accepted text consists of numbers with units, and the total is the sum of their nanoseconds.
-/

namespace Rvx.Web

open Core

/-! ## Numbers with units -/

def Blank (text : List Char) : Prop := ∀ c ∈ text, isSpace c = true

def fractionText (fraction : List (Fin 10)) : List Char :=
  if fraction = [] then [] else '.' :: fraction.map digitChar

def numeralText (whole fraction : List (Fin 10)) : List Char :=
  whole.map digitChar ++ fractionText fraction

def numeralValue (whole fraction : List (Fin 10)) : ℚ :=
  digitsValue (whole ++ fraction) / 10 ^ fraction.length

/-- A number with its unit and the white space before each of them. -/
structure DurationPart where
  gap : List Char
  whole : List (Fin 10)
  fraction : List (Fin 10)
  spaces : List Char
  unit : TimeUnit
  gap_blank : Blank gap
  whole_ne_nil : whole ≠ []
  spaces_blank : Blank spaces

namespace DurationPart

def text (part : DurationPart) : List Char :=
  part.gap ++ numeralText part.whole part.fraction ++ part.spaces ++ part.unit.text

def nanoseconds (part : DurationPart) : ℚ := numeralValue part.whole part.fraction * part.unit.units

end DurationPart

/-- A text, in lower case, that stands for so many nanoseconds. -/
inductive IsDuration : List Char → ℚ → Prop where
  | bare {whole fraction : List (Fin 10)} (hwhole : whole ≠ []) :
    IsDuration (numeralText whole fraction) (numeralValue whole fraction * TimeUnit.s.units)
  | parts {parts : List DurationPart} {rest : List Char} (hparts : parts ≠ []) (hrest : Blank rest) :
    IsDuration (parts.flatMap DurationPart.text ++ rest) (parts.map DurationPart.nanoseconds).sum

/-! ## Matching -/

theorem takeFraction_eq (text : List Char) :
    text = fractionText (takeFraction text).1 ++ (takeFraction text).2 := by
  unfold takeFraction
  split
  · rename_i rest
    split_ifs with hdigits
    · rfl
    · rw [fractionText, if_neg hdigits, List.cons_append, ← (takeDigits_spec rest).1]
  · rfl

theorem matchUnit_eq {text rest : List Char} {unit : TimeUnit}
    (h : matchUnit text = some (unit, rest)) : text = unit.text ++ rest := by
  unfold matchUnit at h
  split at h
  all_goals first | cases h; rfl | cases h

theorem matchAt_eq {text rest : List Char} {found : DurationMatch}
    (h : matchAt text = some (found, rest)) : found.whole ≠ [] ∧ ∃ spaces, Blank spaces ∧
      text = numeralText found.whole found.fraction ++ spaces ++ found.unit.text ++ rest := by
  unfold matchAt at h
  dsimp only at h
  split_ifs at h with hwhole
  obtain ⟨⟨unit, after⟩, hunit, hfound⟩ := Option.map_eq_some_iff.mp h
  rw [Prod.mk.injEq] at hfound
  obtain ⟨rfl, rfl⟩ := hfound
  have htext := (takeDigits_spec text).1
  have hfraction := takeFraction_eq (takeDigits text).2
  have hspaces := List.takeWhile_append_dropWhile (p := isSpace)
    (l := (takeFraction (takeDigits text).2).2)
  rw [matchUnit_eq hunit] at hspaces
  refine ⟨hwhole, (takeFraction (takeDigits text).2).2.takeWhile isSpace,
    fun c hc ↦ List.mem_takeWhile_imp hc, ?_⟩
  conv_lhs => rw [htext, hfraction, ← hspaces]
  simp [numeralText]

theorem nextMatch_eq {text skipped rest : List Char} {found : DurationMatch}
    (h : nextMatch text = some (skipped, found, rest)) :
    ∃ from', text = skipped ++ from' ∧ matchAt from' = some (found, rest) := by
  induction text generalizing skipped with
  | nil => cases h
  | cons c text ih =>
    rw [nextMatch] at h
    split at h
    · rename_i here hhere
      cases h
      exact ⟨c :: text, rfl, hhere⟩
    · obtain ⟨⟨before, later⟩, hlater, heq⟩ := Option.map_eq_some_iff.mp h
      cases heq
      obtain ⟨from', htext, hmatch⟩ := ih hlater
      exact ⟨from', by rw [htext, List.cons_append], hmatch⟩

/-- A match whose skipped text is blank, as a part. -/
theorem exists_part {text skipped rest : List Char} {found : DurationMatch}
    (h : nextMatch text = some (skipped, found, rest)) (hskipped : Blank skipped) :
    ∃ part : DurationPart, text = part.text ++ rest ∧
      part.nanoseconds = numeralValue found.whole found.fraction * found.unit.units := by
  obtain ⟨from', htext, hmatch⟩ := nextMatch_eq h
  obtain ⟨hwhole, spaces, hspaces, hfrom⟩ := matchAt_eq hmatch
  exact ⟨⟨skipped, found.whole, found.fraction, spaces, found.unit, hskipped, hwhole, hspaces⟩,
    by simp [htext, hfrom, DurationPart.text], rfl⟩

/-! ## Sums -/

/-- Where nothing is lost, the counted nanoseconds are the number in its unit. -/
theorem scaled_div {found : DurationMatch} (h : found.scaled % found.divisor = 0) :
    ((found.scaled / found.divisor : ℕ) : ℚ) =
      numeralValue found.whole found.fraction * found.unit.units := by
  rw [Nat.cast_div (Nat.dvd_of_mod_eq_zero h) (by simp [DurationMatch.divisor])]
  simp [DurationMatch.scaled, DurationMatch.divisor, numeralValue, div_mul_eq_mul_div]

theorem sumMatches_parts {steps total result : ℕ} {seen : Bool} {duration : List Char}
    (h : sumMatches steps total seen duration = .ok result) :
    ∃ (parts : List DurationPart) (rest : List Char), Blank rest ∧
      (seen = true ∨ parts ≠ []) ∧ duration = parts.flatMap DurationPart.text ++ rest ∧
      (result : ℚ) = total + (parts.map DurationPart.nanoseconds).sum := by
  have hend {total : ℕ} {seen : Bool} {duration : List Char}
      (h : (if seen && duration.all isSpace then .ok total else .error durationError :
        Except String ℕ) = .ok result) :
      ∃ (parts : List DurationPart) (rest : List Char), Blank rest ∧
        (seen = true ∨ parts ≠ []) ∧ duration = parts.flatMap DurationPart.text ++ rest ∧
        (result : ℚ) = total + (parts.map DurationPart.nanoseconds).sum := by
    split_ifs at h with hblank
    rw [Bool.and_eq_true, List.all_eq_true] at hblank
    cases h
    exact ⟨[], duration, hblank.2, .inl hblank.1, rfl, by simp⟩
  induction steps generalizing total seen duration with
  | zero => exact hend h
  | succ steps ih =>
    rw [sumMatches] at h
    split at h
    · exact hend h
    · rename_i skipped found rest hnext
      split_ifs at h with hskipped hlong hexact
      have hblank : Blank skipped := by simpa [Blank] using hskipped
      obtain ⟨part, hpart, hvalue⟩ := exists_part hnext hblank
      obtain ⟨parts, tail, htail, -, hrest, hresult⟩ := ih h
      refine ⟨part :: parts, tail, htail, .inr (List.cons_ne_nil _ _), ?_, ?_⟩
      · rw [hpart, hrest, List.flatMap_cons, List.append_assoc]
      · rw [hresult, List.map_cons, List.sum_cons, hvalue, ← scaled_div (not_not.mp hexact)]
        push_cast
        ring

/-! ## Printed numbers -/

theorem noDigit_fractionText {fraction : List (Fin 10)} {rest : List Char} (h : NoDigit rest) :
    NoDigit (fractionText fraction ++ rest) := by
  unfold fractionText
  split_ifs
  · exact h
  · simp

/-- What may follow the digits after a point, and the place of a point that is not there. -/
theorem takeFraction_fractionText (fraction : List (Fin 10)) {rest : List Char} (h : NoDigit rest)
    (hpoint : rest.head? ≠ some '.') : takeFraction (fractionText fraction ++ rest) = (fraction, rest) := by
  unfold fractionText
  split_ifs with hnil
  · rw [List.nil_append, hnil]
    cases rest with
    | nil => rfl
    | cons c rest =>
      have hc : c ≠ '.' := fun heq ↦ hpoint (by rw [heq, List.head?_cons])
      simp [takeFraction, hc]
  · rw [List.cons_append, takeFraction, takeDigits_digits fraction h, if_neg hnil]

theorem matchUnit_text (unit : TimeUnit) {rest : List Char} (h : rest.head? ≠ some 's') :
    matchUnit (unit.text ++ rest) = some (unit, rest) := by
  cases unit with
  | m =>
    cases rest with
    | nil => rfl
    | cons c rest =>
      have hc : c ≠ 's' := fun heq ↦ h (by rw [heq, List.head?_cons])
      simp [TimeUnit.text, matchUnit, hc]
  | d => rfl
  | h => rfl
  | s => rfl
  | ms => rfl
  | us => rfl
  | ns => rfl

/-- The first character of a unit. -/
theorem unit_start (unit : TimeUnit) : ∃ c text, unit.text = c :: text ∧ isSpace c = false ∧
    c.isDigit = false ∧ c ≠ '.' := by
  cases unit
  all_goals exact ⟨_, _, rfl, by decide, by decide, by decide⟩

/-- A printed number with its unit is matched as it is. -/
theorem matchAt_numeral {whole fraction : List (Fin 10)} (hwhole : whole ≠ []) (unit : TimeUnit)
    {rest : List Char} (h : rest.head? ≠ some 's') :
    matchAt (numeralText whole fraction ++ unit.text ++ rest) = some (⟨whole, fraction, unit⟩, rest) := by
  obtain ⟨c, text, hunit, hspace, hdigit, hpoint⟩ := unit_start unit
  have hstart : unit.text ++ rest = c :: (text ++ rest) := by rw [hunit, List.cons_append]
  have hno : NoDigit (unit.text ++ rest) := by simp [hstart, hdigit]
  have hdigits : takeDigits (whole.map digitChar ++ (fractionText fraction ++ (unit.text ++ rest))) =
      (whole, fractionText fraction ++ (unit.text ++ rest)) :=
    takeDigits_digits whole (noDigit_fractionText hno)
  have hfraction := takeFraction_fractionText fraction hno (by simpa [hstart] using hpoint)
  have hblank : (unit.text ++ rest).dropWhile isSpace = unit.text ++ rest := by
    rw [hstart, List.dropWhile_cons_of_neg (by simp [hspace])]
  have htext : numeralText whole fraction ++ unit.text ++ rest =
      whole.map digitChar ++ (fractionText fraction ++ (unit.text ++ rest)) := by
    simp [numeralText]
  rw [htext, matchAt, hdigits, hfraction]
  dsimp only
  rw [if_neg hwhole, hblank, matchUnit_text unit h]
  rfl

/-! ## Bare numbers -/

theorem isBareNumber_eq {text : List Char} (h : isBareNumber text = true) :
    ∃ whole fraction, whole ≠ [] ∧ text = numeralText whole fraction := by
  unfold isBareNumber at h
  simp only [ne_eq, decide_not, Bool.and_eq_true, Bool.not_eq_eq_eq_not, Bool.not_true,
    decide_eq_false_iff_not, decide_eq_true_eq] at h
  refine ⟨(takeDigits text).1, (takeFraction (takeDigits text).2).1, h.1, ?_⟩
  have hfraction := takeFraction_eq (takeDigits text).2
  rw [h.2, List.append_nil] at hfraction
  conv_lhs => rw [(takeDigits_spec text).1, hfraction]
  rfl

theorem sumMatches_nil {steps total : ℕ} : sumMatches steps total true [] = .ok total := by
  cases steps <;> rfl

/-- A bare number counts as seconds. -/
theorem sumMatches_bare {whole fraction : List (Fin 10)} (hwhole : whole ≠ []) {steps result : ℕ}
    (h : sumMatches (steps + 1) 0 false (numeralText whole fraction ++ ['s']) = .ok result) :
    (result : ℚ) = numeralValue whole fraction * TimeUnit.s.units := by
  have hmatch : matchAt (numeralText whole fraction ++ TimeUnit.s.text ++ []) =
      some (⟨whole, fraction, .s⟩, []) := matchAt_numeral hwhole .s (by simp)
  rw [List.append_nil] at hmatch
  have hnext : nextMatch (numeralText whole fraction ++ ['s']) =
      some ([], ⟨whole, fraction, .s⟩, []) := by
    cases htext : numeralText whole fraction ++ ['s'] with
    | nil => simp at htext
    | cons c text =>
      rw [TimeUnit.text, htext] at hmatch
      rw [nextMatch, hmatch]
  rw [sumMatches, hnext] at h
  dsimp only at h
  split_ifs at h with hskipped hlong hexact
  rw [sumMatches_nil, zero_add, Except.ok.injEq] at h
  rw [← h, scaled_div (not_not.mp hexact)]

end Rvx.Web
