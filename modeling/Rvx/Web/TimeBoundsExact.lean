import Rvx.Web.DurationPrinting

/-!
# Time bounds are exact

An accepted bound is written as the integer that was read, so it was not rounded; and the text of a
bound is read as that bound, whichever of the integers near a large double its text spells.
-/

namespace Rvx.Web

open Core
open Binary64 (nearest nearest_mono nearest_neg nearest_dyadic)

/-! ## Coordinates -/

theorem nearest_two_pow : nearest (2 ^ 63 : ℚ) = 2 ^ 63 := by
  have h := nearest_dyadic (m := 1) (e := 63) (by norm_num) (by norm_num)
  rwa [Int.cast_one, one_mul] at h

theorem nearest_neg_two_pow : nearest (-2 ^ 63 : ℚ) = -2 ^ 63 := by
  rw [nearest_neg, nearest_two_pow]

theorem shortestInteger_two_pow : shortestInteger (2 ^ 63) = 9223372036854776000 := by
  decide +kernel

section Bounds

variable {other : ℚ → List Char}

/-- The largest bound is below 2 ^ 63: a double there is written as another integer. -/
theorem coordinate_exact {value : ℤ} {result : Option ℚ} (h : coordinate other value = .ok result) :
    ∃ number : ℤ, result = some (number : ℚ) ∧ numberText other number = bigintText value ∧
      -2 ^ 63 ≤ number ∧ number ≤ 2 ^ 63 - 1 := by
  unfold coordinate at h
  dsimp only at h
  split_ifs at h with hrange htext
  rw [not_or, not_lt, not_lt] at hrange
  rw [not_not] at htext
  obtain ⟨number, hnumber⟩ := exists_int_nearest value
  rw [hnumber] at h htext
  refine ⟨number, (BoundResult.ok.inj h).symm, htext, ?_, ?_⟩
  · have hlow := nearest_mono (x := -2 ^ 63) (y := value) (by exact_mod_cast hrange.1)
    rw [nearest_neg_two_pow, hnumber] at hlow
    exact_mod_cast hlow
  · have hhigh := nearest_mono (x := value) (y := 2 ^ 63)
      (by exact_mod_cast hrange.2.trans (by norm_num))
    rw [nearest_two_pow, hnumber] at hhigh
    have hle : number ≤ 2 ^ 63 := by exact_mod_cast hhigh
    refine Int.le_sub_one_of_lt (lt_of_le_of_ne hle fun heq ↦ ?_)
    rw [heq, numberText_of_int (by norm_num), shortestInteger_two_pow] at htext
    have := bigintText_injective htext
    omega

/-- The shortest text of a double below 2 ^ 63 spells an integer below 2 ^ 63. -/
theorem abs_shortestInteger_lt {value : ℤ} (hdouble : nearest value = value)
    (hrange : |value| < 2 ^ 63) : |shortestInteger value| < 2 ^ 63 := by
  have hnearest := nearest_shortestInteger hdouble
  rw [abs_lt] at hrange ⊢
  constructor
  · by_contra hle
    have hmono := nearest_mono (x := shortestInteger value) (y := -2 ^ 63)
      (by exact_mod_cast not_lt.mp hle)
    rw [nearest_neg_two_pow, hnearest] at hmono
    have hvalue : value ≤ -2 ^ 63 := by exact_mod_cast hmono
    exact absurd hrange.1 (not_lt.mpr hvalue)
  · by_contra hge
    have hmono := nearest_mono (x := 2 ^ 63) (y := shortestInteger value)
      (by exact_mod_cast not_lt.mp hge)
    rw [nearest_two_pow, hnearest] at hmono
    have hvalue : (2 ^ 63 : ℤ) ≤ value := by exact_mod_cast hmono
    exact absurd hrange.2 (not_lt.mpr hvalue)

/-- A double below 2 ^ 63 is written as an integer that is accepted, and read as the double. -/
theorem coordinate_shortestInteger {value : ℤ} (hdouble : nearest value = value)
    (hrange : |value| < 2 ^ 63) : coordinate other (shortestInteger value) = .ok (some value) := by
  have hshortest := abs_lt.mp (abs_shortestInteger_lt hdouble hrange)
  unfold coordinate
  dsimp only
  rw [if_neg (by omega), nearest_shortestInteger hdouble,
    numberText_of_int (hrange.trans (by norm_num))]
  simp

/-! ## Accepted durations -/

variable {lower : LowerCase} {clock : LocalClock}

theorem isDurationChar_of_blank {text : List Char} (h : Blank text) :
    ∀ c ∈ text, isDurationChar c = true := fun c hc ↦ by simp [isDurationChar, h c hc]

theorem isDurationChar_digitChar (digit : Fin 10) : isDurationChar (digitChar digit) = true := by
  simp [isDurationChar, isDigit_digitChar]

theorem isDurationChar_numeral {whole fraction : List (Fin 10)} :
    ∀ c ∈ numeralText whole fraction, isDurationChar c = true := by
  have hdigits (digits : List (Fin 10)) : ∀ c ∈ digits.map digitChar, isDurationChar c = true := by
    simp [isDurationChar_digitChar]
  unfold numeralText fractionText
  intro c hc
  split_ifs at hc
  · exact hdigits whole c (by simpa using hc)
  · rw [List.mem_append, List.mem_cons] at hc
    rcases hc with hc | rfl | hc
    · exact hdigits whole c hc
    · decide
    · exact hdigits fraction c hc

theorem isDurationChar_unit (unit : TimeUnit) : ∀ c ∈ unit.text, isDurationChar c = true := by
  cases unit
  all_goals exact List.all_eq_true.mp (by decide)

theorem IsDuration.chars {text : List Char} {sum : ℚ} (h : IsDuration text sum) :
    ∀ c ∈ text, isDurationChar c = true := by
  cases h with
  | bare hwhole => exact isDurationChar_numeral
  | parts hparts hrest =>
    intro c hc
    rw [List.mem_append, List.mem_flatMap] at hc
    rcases hc with ⟨part, -, hc⟩ | hc
    · simp only [DurationPart.text, List.mem_append] at hc
      rcases hc with ((hc | hc) | hc) | hc
      · exact isDurationChar_of_blank part.gap_blank c hc
      · exact isDurationChar_numeral c hc
      · exact isDurationChar_of_blank part.spaces_blank c hc
      · exact isDurationChar_unit part.unit c hc
    · exact isDurationChar_of_blank hrest c hc

/-- What the text of a bound and its number have to do with each other. -/
structure ReadsDuration (other : ℚ → List Char) (text : List Char) (number : ℚ) : Prop where
  /-- A sign, a duration in either case, and the signed sum of its nanoseconds. -/
  sum : ∃ (negative : Bool) (body : List Char) (nanoseconds : ℚ) (value : ℤ),
    text = (if negative then ['-'] else []) ++ body ∧
      IsDuration (body.map Char.toLower) nanoseconds ∧
      (value : ℚ) = (if negative then -nanoseconds else nanoseconds) ∧
      numberText other number = bigintText value
  lower : -2 ^ 63 ≤ number
  upper : number ≤ 2 ^ 63 - 1

theorem isDuration_of_sumMatches {value : List Char} {total : ℕ}
    (h : sumMatches (if isBareNumber value then value ++ ['s'] else value).length 0 false
      (if isBareNumber value then value ++ ['s'] else value) = .ok total) :
    IsDuration value total := by
  split_ifs at h with hbare
  · obtain ⟨whole, fraction, hwhole, rfl⟩ := isBareNumber_eq hbare
    rw [List.length_append, List.length_singleton] at h
    rw [sumMatches_bare hwhole h]
    exact .bare hwhole
  · obtain ⟨parts, rest, hrest, hparts, rfl, hsum⟩ := sumMatches_parts h
    rw [Nat.cast_zero, zero_add] at hsum
    rw [hsum]
    exact .parts (hparts.resolve_left Bool.false_ne_true) hrest

theorem parseDuration_reads {text : List Char} {result : Option ℚ}
    (h : parseDuration other lower text = .ok result) :
    ∃ number, result = some number ∧ ReadsDuration other text number := by
  unfold parseDuration at h
  dsimp only at h
  split at h
  · cases h
  · rename_i total htotal
    obtain ⟨number, rfl, htext, hlow, hhigh⟩ := coordinate_exact h
    refine ⟨number, rfl, ⟨?_, by exact_mod_cast hlow, by exact_mod_cast hhigh⟩⟩
    have hduration := isDuration_of_sumMatches htotal
    rw [lower.duration hduration.chars] at hduration
    by_cases hsign : text.head? = some '-'
    · obtain ⟨body, rfl⟩ := List.head?_eq_some_iff.mp hsign
      simp only [List.head?_cons, if_true, List.tail_cons] at hduration htext
      exact ⟨true, body, total, _, rfl, hduration, by simp, htext⟩
    · simp only [hsign, if_false] at hduration htext
      exact ⟨false, text, total, _, rfl, hduration, by simp, htext⟩

/-! ## Written texts -/

/-- An ASCII character that is no upper-case letter. -/
def Plain (c : Char) : Prop := c.toNat < 128 ∧ c.toLower = c

theorem plain_digitChar (digit : Fin 10) : Plain (digitChar digit) := by
  revert digit
  unfold Plain
  decide

theorem plain_text (one : DurationMatch) : ∀ c ∈ one.text, Plain c := by
  have hdigits (digits : List (Fin 10)) : ∀ c ∈ digits.map digitChar, Plain c := by
    simp [plain_digitChar]
  have hunit : ∀ c ∈ one.unit.text, Plain c := by
    cases one.unit <;> simp [TimeUnit.text, Plain]
  intro c hc
  simp only [DurationMatch.text, numeralText, fractionText, List.mem_append] at hc
  rcases hc with (hc | hc) | hc
  · exact hdigits one.whole c hc
  · split_ifs at hc
    · cases hc
    · rcases List.mem_cons.mp hc with rfl | hc
      · unfold Plain
        decide
      · exact hdigits one.fraction c hc
  · exact hunit c hc

theorem plain_joined (found : List DurationMatch) : ∀ c ∈ joined found, Plain c := by
  intro c hc
  obtain ⟨one, -, hc⟩ := List.mem_flatMap.mp hc
  rcases List.mem_cons.mp hc with rfl | hc
  · unfold Plain
    decide
  · exact plain_text one c hc

theorem lower_plain {text : List Char} (h : ∀ c ∈ text, Plain c) : lower.toLowerCase text = text := by
  rw [lower.ascii fun c hc ↦ (h c hc).1]
  exact (List.map_congr_left fun c hc ↦ (h c hc).2).trans (List.map_id' text)

theorem not_isBareNumber (one : DurationMatch) (rest : List DurationMatch) :
    isBareNumber (one.text ++ joined rest) = false := by
  obtain ⟨c, text, hunit, -, hdigit, hpoint⟩ := unit_start one.unit
  have hstart : one.unit.text ++ joined rest = c :: (text ++ joined rest) := by
    rw [hunit, List.cons_append]
  have hno : NoDigit (one.unit.text ++ joined rest) := by simp [hstart, hdigit]
  have htext : one.text ++ joined rest = one.whole.map digitChar ++
      (fractionText one.fraction ++ (one.unit.text ++ joined rest)) := by
    simp [DurationMatch.text, numeralText]
  rw [isBareNumber, htext, takeDigits_digits _ (noDigit_fractionText hno)]
  dsimp only
  rw [takeFraction_fractionText _ hno (by simpa [hstart] using hpoint), hstart]
  simp

theorem length_le_joined (found : List DurationMatch) : found.length ≤ (joined found).length := by
  induction found with
  | nil => simp
  | cons one rest ih =>
    simp only [joined, List.flatMap_cons, List.length_append, List.length_cons] at ih ⊢
    omega

theorem sumMatches_printed {one : DurationMatch} {rest : List DurationMatch}
    (h : ∀ other ∈ one :: rest, other.Printed) :
    sumMatches (one.text ++ joined rest).length 0 false (one.text ++ joined rest) =
      .ok ((one :: rest).map DurationMatch.amount).sum := by
  rw [List.forall_mem_cons] at h
  obtain ⟨c, text, htext, -⟩ := DurationMatch.text_start h.1
  have hlength : (one.text ++ joined rest).length = text.length + (joined rest).length + 1 := by
    rw [htext, List.cons_append, List.length_cons, List.length_append]
  have hsteps := (length_le_joined rest).trans (Nat.le_add_left _ text.length)
  rw [hlength, sumMatches_found (nextMatch_text h.1 rest) (by simp [Blank]) h.1,
    sumMatches_joined h.2 hsteps, List.map_cons, List.sum_cons, Nat.zero_add]

/-- A written duration is read as its value. -/
theorem parseDuration_formatDuration {value : ℤ} (h : value.natAbs < 10 ^ 19) :
    parseDuration other lower (formatDuration value) = coordinate other value := by
  obtain ⟨one, rest, htext, hprinted, -, hsum⟩ := formatDuration_printed h
  have hone := hprinted one List.mem_cons_self
  obtain ⟨c, text, hstart, hdigit⟩ := DurationMatch.text_start hone
  have hminus : (one.text ++ joined rest).head? ≠ some '-' := by
    rw [hstart, List.cons_append, List.head?_cons]
    intro heq
    rw [Option.some.inj heq] at hdigit
    exact absurd hdigit (by decide)
  have hplain : ∀ c ∈ one.text ++ joined rest, Plain c := fun c hc ↦
    (List.mem_append.mp hc).elim (plain_text one c) (plain_joined rest c)
  have hsumMatches := sumMatches_printed hprinted
  have hlower : lower.toLowerCase (one.text ++ joined rest) = _ := lower_plain hplain
  unfold parseDuration
  rw [htext]
  by_cases hneg : value < 0
  · simp only [hneg, if_true, List.cons_append, List.nil_append, List.head?_cons, List.tail_cons,
      hlower, not_isBareNumber one rest, Bool.false_eq_true, if_false, hsumMatches, hsum]
    congr 1
    omega
  · simp only [hneg, if_false, List.nil_append, hminus, hlower, not_isBareNumber one rest,
      Bool.false_eq_true, hsumMatches, hsum]
    congr 1
    omega

/-! ## Texts that a form leaves as they are -/

def Ends (text : List Char) : Prop := ∃ front c, text = front ++ [c] ∧ isSpace c = false

theorem Ends.append {text : List Char} (h : Ends text) (front : List Char) : Ends (front ++ text) := by
  obtain ⟨before, c, rfl, hc⟩ := h
  exact ⟨front ++ before, c, (List.append_assoc front before [c]).symm, hc⟩

theorem ends_text (one : DurationMatch) : Ends one.text := by
  have hunit : Ends one.unit.text := by
    cases one.unit with
    | d => exact ⟨[], 'd', rfl, by decide⟩
    | h => exact ⟨[], 'h', rfl, by decide⟩
    | m => exact ⟨[], 'm', rfl, by decide⟩
    | s => exact ⟨[], 's', rfl, by decide⟩
    | ms => exact ⟨['m'], 's', rfl, by decide⟩
    | us => exact ⟨['u'], 's', rfl, by decide⟩
    | ns => exact ⟨['n'], 's', rfl, by decide⟩
  exact hunit.append _

theorem ends_joined {text : List Char} (h : Ends text) (found : List DurationMatch) :
    Ends (text ++ joined found) := by
  induction found generalizing text with
  | nil => rwa [joined, List.flatMap_nil, List.append_nil]
  | cons one rest ih =>
    have hjoined : text ++ joined (one :: rest) = (text ++ [' '] ++ one.text) ++ joined rest := by
      simp [joined]
    rw [hjoined]
    exact ih ((ends_text one).append _)

/-- A text without white space around it that is short enough. -/
structure Settled (text : List Char) : Prop where
  start : ∃ c rest, text = c :: rest ∧ isSpace c = false
  ends : Ends text
  plain : ∀ c ∈ text, Plain c
  short : text.length ≤ 128

theorem Settled.trimmed_eq {text : List Char} (h : Settled text) :
    trimmed (String.ofList text) = String.ofList text := by
  obtain ⟨c, rest, hstart, hc⟩ := h.start
  obtain ⟨front, d, hends, hd⟩ := h.ends
  rw [trimmed, toList_trimmed, String.toList_ofList]
  constructor
  · rw [hstart]
    simpa using hc
  · rw [hends]
    simpa using hd

theorem Settled.codeUnits_le {text : List Char} (h : Settled text) :
    codeUnits (String.ofList text) ≤ 128 := by
  have hunits : text.map (fun c ↦ if c.toNat < 0x10000 then 1 else 2) = text.map fun _ ↦ 1 :=
    List.map_congr_left fun c hc ↦ if_pos ((h.plain c hc).1.trans (by norm_num))
  rw [codeUnits, String.toList_ofList, hunits, List.map_const', List.sum_replicate_nat, Nat.mul_one]
  exact h.short

theorem parseTimeBound_elapsed {text : List Char} (h : Settled text) :
    parseTimeBound other lower clock (String.ofList text) "elapsed" =
      parseDuration other lower text := by
  obtain ⟨c, rest, hstart, -⟩ := h.start
  rw [parseTimeBound, h.trimmed_eq]
  dsimp only
  rw [String.toList_ofList, if_neg (by simp [hstart]), if_neg (not_lt.mpr h.codeUnits_le),
    if_neg (by decide), if_neg (by decide)]

theorem parseTimeBound_logical {text : List Char} (h : Settled text) {axis : String}
    (hwall : axis ≠ "wall_time") (helapsed : axis ≠ "elapsed") (hwhole : isWholeNumber text = true) :
    parseTimeBound other lower clock (String.ofList text) axis = coordinate other (bigint text) := by
  obtain ⟨c, rest, hstart, -⟩ := h.start
  rw [parseTimeBound, h.trimmed_eq]
  dsimp only
  rw [String.toList_ofList, if_neg (by simp [hstart]), if_neg (not_lt.mpr h.codeUnits_le),
    if_neg hwall, if_pos helapsed, hwhole]
  rfl

theorem not_isSpace_of_isDigit {c : Char} (h : c.isDigit = true) : isSpace c = false := by
  have hbounds : 48 ≤ c.toNat ∧ c.toNat ≤ 57 := Char.isDigit_iff_toNat.mp h
  simp only [isSpace, Bool.or_eq_false_iff, Bool.and_eq_false_imp, decide_eq_false_iff_not,
    decide_eq_true_eq, List.mem_cons, List.not_mem_nil, or_false, not_or]
  omega

theorem settled_formatDuration {value : ℤ} (h : value.natAbs < 10 ^ 19) :
    Settled (formatDuration value) := by
  obtain ⟨one, rest, htext, hprinted, hlength, -⟩ := formatDuration_printed h
  have hone := hprinted one List.mem_cons_self
  rw [htext]
  refine ⟨?_, (ends_joined (ends_text one) rest).append _, ?_, ?_⟩
  · obtain ⟨c, text, hstart, hdigit⟩ := DurationMatch.text_start hone
    split_ifs
    · exact ⟨'-', _, rfl, by decide⟩
    · exact ⟨c, _, by rw [hstart]; rfl, not_isSpace_of_isDigit hdigit⟩
  · intro c hc
    rw [List.mem_append, List.mem_append] at hc
    rcases hc with hc | hc | hc
    · split_ifs at hc
      · rw [List.mem_singleton.mp hc]
        unfold Plain
        decide
      · cases hc
    · exact plain_text one c hc
    · exact plain_joined rest c hc
  · have hsign : (if value < 0 then ['-'] else []).length ≤ 1 := by split_ifs <;> simp
    have hjoined {found : List DurationMatch} (hfound : ∀ other ∈ found, other.Printed) :
        (joined found).length ≤ 32 * found.length := by
      induction found with
      | nil => simp [joined]
      | cons other later ih =>
        rw [List.forall_mem_cons] at hfound
        have hother := DurationMatch.length_text hfound.1
        have hlater := ih hfound.2
        simp only [joined, List.flatMap_cons, List.length_append, List.length_cons] at hlater ⊢
        omega
    have hrest := hjoined (List.forall_mem_cons.mp hprinted).2
    have hfirst := DurationMatch.length_text hone
    rw [List.length_append, List.length_append]
    omega

/-! ## Written integers -/

theorem takeDigits_decimalDigits (n : ℕ) :
    takeDigits ((Number.decimalDigits n).map digitChar) = (Number.decimalDigits n, []) := by
  have htake : takeDigits ((Number.decimalDigits n).map digitChar ++ []) = _ :=
    takeDigits_digits (Number.decimalDigits n) (by simp)
  rwa [List.append_nil] at htake

theorem bigint_digits (n : ℕ) : bigint (bigintText n) = n := by
  rw [bigintText_natCast]
  unfold bigint
  split
  · rename_i digits heq
    have hminus : '-' ∈ (Number.decimalDigits n).map digitChar := by simp [heq]
    obtain ⟨digit, -, hdigit⟩ := List.mem_map.mp hminus
    exact absurd hdigit (digitChar_ne_minus digit)
  · rw [takeDigits_decimalDigits, Number.digitsValue_decimalDigits]

theorem isWholeNumber_digits (n : ℕ) : isWholeNumber (bigintText n) = true := by
  have hdigits : ∀ c ∈ (Number.decimalDigits n).map digitChar, c.isDigit = true := by
    simp [isDigit_digitChar]
  rw [bigintText_natCast]
  unfold isWholeNumber
  split
  · rename_i digits heq
    have hminus := hdigits '-' (by simp [heq])
    exact absurd hminus (by decide)
  · simp [Number.decimalDigits_ne_nil, isDigit_digitChar]

theorem bigintText_neg {value : ℤ} (h : value < 0) :
    bigintText value = '-' :: bigintText value.natAbs := by
  rw [bigintText_natCast, bigintText, if_pos h, List.singleton_append]

theorem bigintText_nonneg {value : ℤ} (h : ¬ value < 0) :
    bigintText value = bigintText value.natAbs := by
  rw [Int.natAbs_of_nonneg (not_lt.mp h)]

theorem bigint_bigintText (value : ℤ) : bigint (bigintText value) = value := by
  by_cases hneg : value < 0
  · rw [bigintText_neg hneg, bigintText_natCast, bigint, takeDigits_decimalDigits,
      Number.digitsValue_decimalDigits]
    omega
  · rw [bigintText_nonneg hneg, bigint_digits]
    omega

theorem isWholeNumber_bigintText (value : ℤ) : isWholeNumber (bigintText value) = true := by
  by_cases hneg : value < 0
  · rw [bigintText_neg hneg, bigintText_natCast, isWholeNumber]
    simp [Number.decimalDigits_ne_nil, isDigit_digitChar]
  · rw [bigintText_nonneg hneg]
    exact isWholeNumber_digits _

theorem settled_bigintText {value : ℤ} (h : value.natAbs < 10 ^ 19) : Settled (bigintText value) := by
  have hlength := length_decimalDigits_le h (by norm_num)
  obtain ⟨digit, digits, hdigits⟩ := List.exists_cons_of_ne_nil
    (Number.decimalDigits_ne_nil value.natAbs)
  have hends : Ends ((Number.decimalDigits value.natAbs).map digitChar) := by
    obtain ⟨front, last, hlast⟩ := (List.eq_nil_or_concat _).resolve_left
      (Number.decimalDigits_ne_nil value.natAbs)
    exact ⟨front.map digitChar, digitChar last,
      by rw [hlast, List.concat_eq_append, List.map_append, List.map_singleton],
      not_isSpace_of_isDigit (isDigit_digitChar last)⟩
  refine ⟨?_, hends.append _, ?_, ?_⟩
  · unfold bigintText
    split_ifs
    · exact ⟨'-', _, rfl, by decide⟩
    · exact ⟨digitChar digit, _, by rw [hdigits]; rfl,
        not_isSpace_of_isDigit (isDigit_digitChar digit)⟩
  · intro c hc
    rw [bigintText, List.mem_append, List.mem_map] at hc
    rcases hc with hc | ⟨digit, -, rfl⟩
    · split_ifs at hc
      · rw [List.mem_singleton.mp hc]
        unfold Plain
        decide
      · cases hc
    · exact plain_digitChar digit
  · have hsign : (if value < 0 then ['-'] else []).length ≤ 1 := by split_ifs <;> simp
    rw [bigintText, List.length_append, List.length_map]
    omega

/-! ## Round trips -/

theorem parseTimeBound_formatTimeBound {value : ℤ} (hdouble : nearest value = value)
    (hrange : |value| < 2 ^ 63) {axis : String} (haxis : axis ≠ "wall_time") :
    parseTimeBound other lower clock
      (formatTimeBound other clock (some (.finite value)) axis) axis = .ok (some value) := by
  have hlt : (shortestInteger value).natAbs < 10 ^ 19 := by
    have hshortest := abs_lt.mp (abs_shortestInteger_lt hdouble hrange)
    omega
  have htext : numberText other value = bigintText (shortestInteger value) :=
    numberText_of_int (hrange.trans (by norm_num))
  have hle : ¬ |(value : ℚ)| > 2 ^ 63 := by
    rw [not_lt]
    exact_mod_cast hrange.le
  have hinteger : ¬ ((value : ℚ).den ≠ 1 ∨ |(value : ℚ)| > 2 ^ 63) := by simp [hle]
  rw [formatTimeBound, if_neg hinteger, if_neg haxis, htext, bigint_bigintText]
  by_cases helapsed : axis = "elapsed"
  · rw [if_neg (not_not.mpr helapsed), helapsed, parseTimeBound_elapsed (settled_formatDuration hlt),
      parseDuration_formatDuration hlt, coordinate_shortestInteger hdouble hrange]
  · rw [if_pos helapsed, parseTimeBound_logical (settled_bigintText hlt) haxis helapsed
      (isWholeNumber_bigintText _), bigint_bigintText, coordinate_shortestInteger hdouble hrange]

theorem parseTimeBound_elapsed_eq (input : String) :
    parseTimeBound other lower clock input "elapsed" =
      if trimmed input = "" then .ok none
      else if codeUnits (trimmed input) > 128 then .error "This bound is too long."
      else parseDuration other lower (trimmed input).toList := by
  rw [parseTimeBound]
  dsimp only
  rw [if_neg (by decide : "elapsed" ≠ "wall_time"), if_neg (by decide : ¬ "elapsed" ≠ "elapsed")]
  simp only [String.toList_eq_nil_iff]

variable (other lower clock)

/-- An accepted elapsed bound is the signed sum of its parts, and was not rounded; a written bound is
read back on every axis that has no clock. -/
theorem parseTimeBound_exact :
    (∀ input, parseTimeBound other lower clock input "elapsed" = .ok none → trimmed input = "") ∧
    (∀ input number, parseTimeBound other lower clock input "elapsed" = .ok (some number) →
      ReadsDuration other (trimmed input).toList number) ∧
    ∀ (value : ℤ) (axis : String), nearest value = value → |value| < 2 ^ 63 → axis ≠ "wall_time" →
      parseTimeBound other lower clock
        (formatTimeBound other clock (some (.finite value)) axis) axis = .ok (some value) := by
  refine ⟨?_, ?_, fun value axis hdouble hrange haxis ↦
    parseTimeBound_formatTimeBound hdouble hrange haxis⟩
  · intro input h
    rw [parseTimeBound_elapsed_eq] at h
    split_ifs at h with hempty
    · exact hempty
    · obtain ⟨number, hnumber, -⟩ := parseDuration_reads h
      cases hnumber
  · intro input number h
    rw [parseTimeBound_elapsed_eq] at h
    split_ifs at h
    · cases h
    · obtain ⟨_, hnumber, hreads⟩ := parseDuration_reads h
      exact Option.some.inj hnumber ▸ hreads

end Bounds

/-- Lower case of ASCII texts. -/
def sampleLower : LowerCase := ⟨List.map Char.toLower, fun _ ↦ rfl, fun _ ↦ rfl⟩

def sampleClock : LocalClock := ⟨fun _ ↦ none, fun _ ↦ ⟨1970, 0, 1, 0, 0, 0⟩⟩

theorem parseTimeBound_exact_sample :
    ReadsDuration (fun _ ↦ []) (trimmed " -1H 15m ").toList (-4500000000000) ∧
      parseTimeBound (fun _ ↦ []) sampleLower sampleClock
        (formatTimeBound (fun _ ↦ []) sampleClock (some (.finite (2 ^ 62 : ℤ))) "elapsed") "elapsed" =
          .ok (some (2 ^ 62 : ℤ)) :=
  ⟨(parseTimeBound_exact _ sampleLower sampleClock).2.1 _ _ (by decide +kernel),
    (parseTimeBound_exact _ sampleLower sampleClock).2.2 _ _ (by decide +kernel) (by decide)
      (by decide)⟩

end Rvx.Web
