import Rvx.Lib.Decimal
import Rvx.Web.DecimalRounding
import Rvx.Web.DurationText
import Rvx.Web.Script

/-!
# Written durations are read back

A duration is written as numbers with units, one space between them, and nothing in it is lost: the
seconds keep nine digits after the point, without the zeros at the end.
-/

namespace Rvx.Web

open Core Decimal

/-! ## Printed matches -/

namespace DurationMatch

def text (found : DurationMatch) : List Char :=
  numeralText found.whole found.fraction ++ found.unit.text

/-- A match that is written by the formatter. -/
structure Printed (found : DurationMatch) : Prop where
  whole_ne_nil : found.whole ≠ []
  whole_short : found.whole.length ≤ 19
  fraction_short : found.fraction.length ≤ 9
  exact : found.scaled % found.divisor = 0

def amount (found : DurationMatch) : ℕ := found.scaled / found.divisor

theorem text_start {found : DurationMatch} (h : found.Printed) :
    ∃ c rest, found.text = c :: rest ∧ c.isDigit = true := by
  obtain ⟨digit, whole, hwhole⟩ := List.exists_cons_of_ne_nil h.whole_ne_nil
  refine ⟨digitChar digit,
    whole.map digitChar ++ fractionText found.fraction ++ found.unit.text, ?_,
    isDigit_digitChar digit⟩
  rw [text, hwhole, numeralText, List.map_cons, List.cons_append, List.cons_append]

theorem length_text {found : DurationMatch} (h : found.Printed) : found.text.length ≤ 31 := by
  have hfraction : (fractionText found.fraction).length ≤ 10 := by
    unfold fractionText
    split_ifs
    · exact Nat.zero_le 10
    · rw [List.length_cons, List.length_map]
      exact Nat.succ_le_succ h.fraction_short
  have hunit : found.unit.text.length ≤ 2 := by cases found.unit <;> decide
  have hwhole := h.whole_short
  simp only [text, numeralText, List.length_append, List.length_map]
  omega

end DurationMatch

/-- Each match after the first one is written after a space. -/
def joined (found : List DurationMatch) : List Char := found.flatMap fun one ↦ ' ' :: one.text

theorem joined_start (found : List DurationMatch) : (joined found).head? ≠ some 's' := by
  cases found with
  | nil => simp [joined]
  | cons one rest => simp [joined]

theorem nextMatch_text {one : DurationMatch} (h : one.Printed) (rest : List DurationMatch) :
    nextMatch (one.text ++ joined rest) = some ([], one, joined rest) := by
  obtain ⟨c, text, htext, -⟩ := DurationMatch.text_start h
  have hmatch : matchAt (one.text ++ joined rest) = some (one, joined rest) :=
    matchAt_numeral h.whole_ne_nil one.unit (joined_start rest)
  rw [htext, List.cons_append] at hmatch ⊢
  rw [nextMatch, hmatch]

theorem matchAt_space (rest : List Char) : matchAt (' ' :: rest) = none := by
  have hdigits : takeDigits (' ' :: rest) = ([], ' ' :: rest) := by
    rw [takeDigits, digitOf_eq_none.mpr (by decide)]
  simp [matchAt, hdigits]

theorem nextMatch_joined {one : DurationMatch} (h : one.Printed) (rest : List DurationMatch) :
    nextMatch (joined (one :: rest)) = some ([' '], one, joined rest) := by
  have hjoined : joined (one :: rest) = ' ' :: (one.text ++ joined rest) := by simp [joined]
  rw [hjoined, nextMatch, matchAt_space, nextMatch_text h]
  rfl

theorem sumMatches_found {duration skipped rest : List Char} {one : DurationMatch}
    (hnext : nextMatch duration = some (skipped, one, rest)) (hskipped : Blank skipped)
    (h : one.Printed) (steps total : ℕ) (seen : Bool) :
    sumMatches (steps + 1) total seen duration = sumMatches steps (total + one.amount) true rest := by
  have hblank : (skipped.any fun c ↦ !isSpace c) = false := by simpa [Blank] using hskipped
  have hshort := h.fraction_short
  rw [sumMatches, hnext]
  dsimp only
  rw [hblank, if_neg Bool.false_ne_true, if_neg (by omega), if_neg (not_not.mpr h.exact)]
  rfl

theorem sumMatches_joined {found : List DurationMatch} (h : ∀ one ∈ found, one.Printed)
    {steps : ℕ} (hsteps : found.length ≤ steps) (total : ℕ) :
    sumMatches steps total true (joined found) =
      .ok (total + (found.map DurationMatch.amount).sum) := by
  induction found generalizing steps total with
  | nil => simp [joined, sumMatches_nil]
  | cons one rest ih =>
    rw [List.forall_mem_cons] at h
    obtain ⟨steps, rfl⟩ := Nat.exists_eq_add_of_le' (Nat.one_le_of_lt hsteps)
    rw [List.length_cons, Nat.add_le_add_iff_right] at hsteps
    rw [sumMatches_found (nextMatch_joined h.1 rest) (by simp [Blank, isSpace]) h.1, ih h.2 hsteps, List.map_cons,
      List.sum_cons, Nat.add_assoc]

/-! ## The formatter -/

theorem length_decimalDigits_le {n k : ℕ} (h : n < 10 ^ k) (hk : 1 ≤ k) :
    (Number.decimalDigits n).length ≤ k := by
  have hvalue := Number.digitsValue_decimalDigits n
  have hcanonical := Number.decimalDigits_canonical n
  cases hdigits : Number.decimalDigits n with
  | nil => exact absurd hdigits (Number.decimalDigits_ne_nil n)
  | cons digit rest =>
    rw [hdigits] at hvalue hcanonical
    by_cases hzero : digit = 0
    · rw [hzero, List.head?_cons] at hcanonical
      rw [hzero, hcanonical rfl]
      exact hk
    · have hpow : 10 ^ rest.length ≤ digitsValue (digit :: rest) := pow_le_digitsValue hzero
      rw [hvalue] at hpow
      exact (Nat.pow_lt_pow_iff_right (by norm_num)).mp (hpow.trans_lt h)

theorem bigintText_natCast (n : ℕ) : bigintText n = (Number.decimalDigits n).map digitChar := by
  simp [bigintText]

/-- A whole number of units. -/
def wholeMatch (amount : ℕ) (unit : TimeUnit) : DurationMatch := ⟨Number.decimalDigits amount, [], unit⟩

theorem text_wholeMatch (amount : ℕ) (unit : TimeUnit) :
    (wholeMatch amount unit).text = bigintText amount ++ unit.text := by
  simp [wholeMatch, DurationMatch.text, numeralText, fractionText, bigintText_natCast]

theorem amount_wholeMatch (amount : ℕ) (unit : TimeUnit) :
    (wholeMatch amount unit).amount = amount * unit.units := by
  simp [DurationMatch.amount, DurationMatch.scaled, DurationMatch.divisor, wholeMatch,
    Number.digitsValue_decimalDigits]

theorem printed_wholeMatch {amount : ℕ} (h : amount < 10 ^ 19) (unit : TimeUnit) :
    (wholeMatch amount unit).Printed where
  whole_ne_nil := Number.decimalDigits_ne_nil amount
  whole_short := length_decimalDigits_le h (by norm_num)
  fraction_short := Nat.zero_le 9
  exact := Nat.mod_one _

theorem wholeUnits_printed (units : List TimeUnit) {remaining : ℕ} (h : remaining < 10 ^ 19) :
    ∃ found : List DurationMatch, (wholeUnits units remaining).1 = found.map DurationMatch.text ∧
      (∀ one ∈ found, one.Printed) ∧ found.length ≤ units.length ∧
      (found.map DurationMatch.amount).sum + (wholeUnits units remaining).2 = remaining ∧
      (wholeUnits units remaining).2 ≤ remaining := by
  induction units generalizing remaining with
  | nil => exact ⟨[], rfl, by simp, le_rfl, by simp [wholeUnits], le_rfl⟩
  | cons unit units ih =>
    have hmod := Nat.mod_le remaining unit.units
    have hdiv := Nat.div_add_mod' remaining unit.units
    obtain ⟨found, htext, hprinted, hlength, hsum, hle⟩ := ih (hmod.trans_lt h)
    rw [wholeUnits]
    dsimp only
    split_ifs with hzero
    · rw [hzero, Nat.zero_mul, Nat.zero_add] at hdiv
      rw [hdiv] at hsum hle htext ⊢
      exact ⟨found, htext, hprinted, by simp [hlength.trans], hsum, hle⟩
    · refine ⟨wholeMatch (remaining / unit.units) unit :: found, ?_, ?_, ?_, ?_, hle.trans hmod⟩
      · rw [htext, List.map_cons, text_wholeMatch]
      · exact List.forall_mem_cons.mpr
          ⟨printed_wholeMatch ((Nat.div_le_self _ _).trans_lt h) unit, hprinted⟩
      · simpa using hlength
      · rw [List.map_cons, List.sum_cons, amount_wholeMatch]
        omega

theorem padStart_digits (width : ℕ) (digits : List (Fin 10)) : padStart width (digits.map digitChar) =
    (List.replicate (width - digits.length) 0 ++ digits).map digitChar := by
  rw [padStart, List.map_append, List.map_replicate, List.length_map]
  rfl

theorem stripTrailingZeros_digits (digits : List (Fin 10)) :
    stripTrailingZeros (digits.map digitChar) = (Decimal.trimmed digits).map digitChar := by
  have hzero : ((fun c : Char ↦ decide (c = '0')) ∘ digitChar) = fun digit ↦ decide (digit = 0) := by
    funext digit
    revert digit
    decide
  rw [stripTrailingZeros, Decimal.trimmed, ← List.map_reverse, List.dropWhile_map, List.map_reverse,
    hzero]

/-- The nine digits after the point of some seconds. -/
def nanoDigits (remaining : ℕ) : List (Fin 10) :=
  let digits := Number.decimalDigits (remaining % TimeUnit.s.units)
  List.replicate (9 - digits.length) 0 ++ digits

def secondsMatch (remaining : ℕ) : DurationMatch :=
  ⟨Number.decimalDigits (remaining / TimeUnit.s.units), Decimal.trimmed (nanoDigits remaining), .s⟩

theorem text_secondsMatch (remaining : ℕ) :
    (secondsMatch remaining).text = secondsText remaining := by
  have hfraction (digits : List (Fin 10)) :
      (if digits.map digitChar = [] then [] else '.' :: digits.map digitChar) =
        fractionText digits := by
    cases digits <;> rfl
  rw [secondsText, bigintText_natCast, bigintText_natCast, padStart_digits, stripTrailingZeros_digits,
    hfraction]
  rfl

theorem length_nanoDigits (remaining : ℕ) : (nanoDigits remaining).length = 9 := by
  have hlt : remaining % TimeUnit.s.units < 10 ^ 9 := Nat.mod_lt _ (by decide)
  have hlength := length_decimalDigits_le hlt (by norm_num)
  rw [nanoDigits, List.length_append, List.length_replicate]
  omega

theorem digitsValue_nanoDigits (remaining : ℕ) :
    digitsValue (nanoDigits remaining) = remaining % TimeUnit.s.units := by
  rw [nanoDigits, digitsValue_append_list, digitsValue_replicate, Number.digitsValue_decimalDigits]
  simp

/-- The dropped zeros lose nothing. -/
theorem scaled_secondsMatch (remaining : ℕ) :
    (secondsMatch remaining).scaled = remaining * (secondsMatch remaining).divisor := by
  obtain ⟨zeros, hdigits, hzeros⟩ := exists_zeros (nanoDigits remaining)
  have hlength := length_nanoDigits remaining
  have hvalue := digitsValue_nanoDigits remaining
  rw [hdigits, List.length_append] at hlength
  rw [hdigits, digitsValue_append_list, digitsValue_eq_zero.mpr hzeros, Nat.add_zero] at hvalue
  have hdiv := Nat.div_add_mod' remaining TimeUnit.s.units
  unfold DurationMatch.scaled DurationMatch.divisor secondsMatch
  dsimp only
  generalize Decimal.trimmed (nanoDigits remaining) = fraction at hlength hvalue ⊢
  have hpow : TimeUnit.s.units = 10 ^ fraction.length * 10 ^ zeros.length := by
    rw [← pow_add, hlength]
    rfl
  rw [digitsValue_append_list, Number.digitsValue_decimalDigits, Nat.add_mul]
  calc
    remaining / TimeUnit.s.units * 10 ^ fraction.length * TimeUnit.s.units +
          digitsValue fraction * TimeUnit.s.units
        = remaining / TimeUnit.s.units * 10 ^ fraction.length * TimeUnit.s.units +
          digitsValue fraction * (10 ^ fraction.length * 10 ^ zeros.length) := by
          rw [← hpow]
    _ = (remaining / TimeUnit.s.units * TimeUnit.s.units +
          digitsValue fraction * 10 ^ zeros.length) * 10 ^ fraction.length := by ring
    _ = remaining * 10 ^ fraction.length := by rw [hvalue, hdiv]

theorem printed_secondsMatch {remaining : ℕ} (h : remaining < 10 ^ 19) :
    (secondsMatch remaining).Printed where
  whole_ne_nil := Number.decimalDigits_ne_nil _
  whole_short := length_decimalDigits_le ((Nat.div_le_self _ _).trans_lt h) (by norm_num)
  fraction_short := by
    obtain ⟨zeros, hdigits, -⟩ := exists_zeros (nanoDigits remaining)
    have hlength := congrArg List.length hdigits
    rw [length_nanoDigits, List.length_append] at hlength
    exact hlength ▸ Nat.le_add_right _ _
  exact := by rw [scaled_secondsMatch, Nat.mul_mod_left]

theorem amount_secondsMatch (remaining : ℕ) : (secondsMatch remaining).amount = remaining := by
  rw [DurationMatch.amount, scaled_secondsMatch, Nat.mul_div_left _ (by simp [DurationMatch.divisor])]

theorem intercalate_text (one : DurationMatch) (rest : List DurationMatch) :
    [' '].intercalate ((one :: rest).map DurationMatch.text) = one.text ++ joined rest := by
  induction rest generalizing one with
  | nil => simp [joined]
  | cons next rest ih =>
    have hjoined : joined (next :: rest) = ' ' :: (next.text ++ joined rest) := by simp [joined]
    rw [List.map_cons, List.map_cons, List.intercalate_cons_cons, ← List.map_cons, ih, hjoined]
    simp

/-- A written duration is a sign and at most four matches that sum up to its value. -/
theorem formatDuration_printed {value : ℤ} (h : value.natAbs < 10 ^ 19) :
    ∃ one rest, formatDuration value =
        (if value < 0 then ['-'] else []) ++ (one.text ++ joined rest) ∧
      (∀ other ∈ one :: rest, other.Printed) ∧ rest.length ≤ 3 ∧
      ((one :: rest).map DurationMatch.amount).sum = value.natAbs := by
  obtain ⟨found, htext, hprinted, hlength, hsum, hle⟩ := wholeUnits_printed [.d, .h, .m] h
  have hall : ∃ all, (if (wholeUnits [.d, .h, .m] value.natAbs).2 ≠ 0 ∨
        (wholeUnits [.d, .h, .m] value.natAbs).1 = [] then
          (wholeUnits [.d, .h, .m] value.natAbs).1 ++
            [secondsText (wholeUnits [.d, .h, .m] value.natAbs).2]
        else (wholeUnits [.d, .h, .m] value.natAbs).1) = all.map DurationMatch.text ∧ all ≠ [] ∧
      (∀ other ∈ all, other.Printed) ∧ all.length ≤ 4 ∧
      (all.map DurationMatch.amount).sum = value.natAbs := by
    generalize wholeUnits [.d, .h, .m] value.natAbs = units at htext hsum hle
    split_ifs with hseconds
    · refine ⟨found ++ [secondsMatch units.2], ?_, by simp, ?_, ?_, ?_⟩
      · rw [htext, List.map_append, List.map_singleton, text_secondsMatch]
      · intro other hother
        rw [List.mem_append, List.mem_singleton] at hother
        rcases hother with hother | rfl
        · exact hprinted other hother
        · exact printed_secondsMatch (hle.trans_lt h)
      · rw [List.length_append]
        exact Nat.succ_le_succ hlength
      · rw [List.map_append, List.sum_append, List.map_singleton, List.sum_singleton,
          amount_secondsMatch, hsum]
    · rw [not_or, not_not] at hseconds
      rw [hseconds.1, Nat.add_zero] at hsum
      refine ⟨found, htext, ?_, hprinted, hlength.trans (by decide), hsum⟩
      rintro rfl
      exact hseconds.2 htext
  obtain ⟨all, hformat, hne, hprintedAll, hlengthAll, hsumAll⟩ := hall
  obtain ⟨one, rest, rfl⟩ := List.exists_cons_of_ne_nil hne
  refine ⟨one, rest, ?_, hprintedAll, Nat.le_of_succ_le_succ hlengthAll, hsumAll⟩
  rw [formatDuration, hformat, intercalate_text]

end Rvx.Web
