import Mathlib.Data.List.TakeWhile
import Rvx.Core.NumberText
import Rvx.Lib.Decimal

/-!
# Exact numeric order

Number tokens are compared without rounding: by sign, by the decimal exponent of the first digit
above zero, and digit by digit.  Integers of at most 64 bits are compared directly.
-/

namespace Rvx.Tables

open Core Decimal

inductive DecimalExponent where
  | small (value : ℤ)
  | large (negative : Bool) (digits : List Char)

/-- The loop of `shifted` over the digits, the last one first, with the carry it leaves. -/
def carryDigits (subtract : Bool) : (carry : ℕ) → List Char → List Char × ℕ
  | carry, [] => ([], carry)
  | carry, digit :: rest =>
    if carry = 0 then (digit :: rest, 0)
    else
      let value := digit.toNat - 48
      let part := carry % 10
      if subtract = false then
        let next := carryDigits subtract (carry / 10 + if value + part ≥ 10 then 1 else 0) rest
        (Nat.digitChar ((value + part) % 10) :: next.1, next.2)
      else if value < part then
        let next := carryDigits subtract (carry / 10 + 1) rest
        (Nat.digitChar (value + 10 - part) :: next.1, next.2)
      else
        let next := carryDigits subtract (carry / 10) rest
        (Nat.digitChar (value - part) :: next.1, next.2)

namespace DecimalExponent

/-- `checked_add`. -/
def checkedAdd (value offset : ℤ) : Option ℤ :=
  if -2 ^ 63 ≤ value + offset ∧ value + offset < 2 ^ 63 then some (value + offset) else none

/-- The digits of an exponent that is moved by `adjustment`. -/
def moved (digits : List Char) (adjustment : ℤ) : List Char :=
  let (reversed, carry) := carryDigits (adjustment < 0) adjustment.natAbs digits.reverse
  if carry > 0 then printNat carry ++ reversed.reverse
  else reversed.reverse.dropWhile fun c ↦ c = '0'

/-- The exponent a text of sign and digits denotes. -/
def ofDigits (negative : Bool) (digits : List Char) : DecimalExponent :=
  match parseI64 (if negative then '-' :: digits else digits) with
  | some value => .small value
  | none => .large negative digits

def shifted (token : List Char) (offset : ℤ) : DecimalExponent :=
  match (parseI64 token).bind fun value ↦ checkedAdd value offset with
  | some value => .small value
  | none =>
    let negative : Bool := token.head? = some '-'
    let digits := (token.dropWhile fun c ↦ c = '-' ∨ c = '+').dropWhile fun c ↦ c = '0'
    ofDigits negative (moved digits (if negative then -offset else offset))

protected def compare : DecimalExponent → DecimalExponent → Ordering
  | .small a, .small b => Ord.compare a b
  | .large negative _, .small _ => if negative then .lt else .gt
  | .small _, .large negative _ => if negative then .gt else .lt
  | .large negative a, .large negative' b =>
    if negative ≠ negative' then if negative then .lt else .gt
    else
      let order := (Ord.compare a.length b.length).then (Ord.compare a b)
      if negative then order.swap else order

end DecimalExponent

structure NumericKey where
  integer : Option ℤ
  negative : Bool
  magnitude : DecimalExponent
  digits : List Char

namespace NumericKey

def zero : NumericKey := ⟨some 0, false, .small 0, []⟩

/-- `split_once(['e', 'E'])`, with the exponent of a token that has none. -/
def splitExponent (unsigned : List Char) : List Char × List Char :=
  let mantissa := unsigned.takeWhile fun c ↦ c ≠ 'e' ∧ c ≠ 'E'
  match unsigned.drop mantissa.length with
  | [] => (mantissa, ['0'])
  | _ :: exponent => (mantissa, exponent)

def fromToken (token : List Char) (integer : Option ℤ) : NumericKey :=
  let negative : Bool := token.head? = some '-'
  let unsigned := if negative then token.tail else token
  let (mantissa, exponent) := splitExponent unsigned
  let point := mantissa.findIdx fun c ↦ c = '.'
  match mantissa.findIdx? fun c ↦ c ≠ '0' ∧ c ≠ '.' with
  | none => zero
  | some first =>
    let leading : ℕ := first - if first > point then 1 else 0
    ⟨integer, negative, .shifted exponent (point - leading), mantissa.drop first⟩

/-- The 64-bit integer a number is. -/
def wideInteger (number : Number) : Option ℤ :=
  number.asI64.or (number.asU64.map Int.ofNat)

def new (number : Number) : NumericKey := fromToken number.chars (wideInteger number)

protected def compare (key other : NumericKey) : Ordering :=
  match key.integer, other.integer with
  | some a, some b => Ord.compare a b
  | _, _ =>
    if key.digits = [] then
      if other.digits = [] then .eq else if other.negative then .gt else .lt
    else if other.digits = [] then if key.negative then .lt else .gt
    else if key.negative ≠ other.negative then if key.negative then .lt else .gt
    else
      let order := (key.magnitude.compare other.magnitude).then
        (comparePadded '0' (key.digits.filter fun c ↦ c ≠ '.')
          (other.digits.filter fun c ↦ c ≠ '.'))
      if key.negative then order.swap else order

/-- The key of the absolute value. -/
def abs (key : NumericKey) : NumericKey :=
  { key with negative := false, integer := key.integer.map fun value ↦ |value| }

end NumericKey

/-! ## Exponents -/

namespace DecimalExponent

/-- What an exponent stands for; only those out of range are kept as digits. -/
inductive Denotes : DecimalExponent → ℤ → Prop
  | small {value : ℤ} (low : -2 ^ 63 ≤ value) (high : value < 2 ^ 63) : Denotes (.small value) value
  | positive {digits : List (Fin 10)} (leading : digits.head? ≠ some 0)
    (big : 2 ^ 63 ≤ natural digits) :
    Denotes (.large false (digits.map digitChar)) (natural digits)
  | negative {digits : List (Fin 10)} (leading : digits.head? ≠ some 0)
    (big : 2 ^ 63 < natural digits) :
    Denotes (.large true (digits.map digitChar)) (-(natural digits : ℤ))

theorem compare_digitChar (a b : Fin 10) :
    Ord.compare (digitChar a) (digitChar b) = Ord.compare a b := by
  revert a b
  decide

theorem ne_nil_of_big {digits : List (Fin 10)} (h : 2 ^ 63 ≤ natural digits) : digits ≠ [] := by
  rintro rfl
  norm_num at h

/-- Digits without leading zeros compare as the numbers they are. -/
theorem compare_digits {as bs : List (Fin 10)} (has : as ≠ []) (hbs : bs ≠ [])
    (hahead : as.head? ≠ some 0) (hbhead : bs.head? ≠ some 0) :
    (Ord.compare (as.map digitChar).length (bs.map digitChar).length).then
        (Ord.compare (as.map digitChar) (bs.map digitChar)) =
      Ord.compare (natural as) (natural bs) := by
  rw [compare_natural has hbs hahead hbhead, List.length_map, List.length_map]
  rcases eq_or_ne as.length bs.length with hlength | hlength
  · rw [← comparePadded_eq_compare '0' (by simpa using hlength),
      ← comparePadded_map compare_digitChar 0 as bs]
    rfl
  · have hne : Ord.compare as.length bs.length ≠ .eq := fun heq ↦
      hlength (compare_eq_iff_eq.mp heq)
    cases hcompare : Ord.compare as.length bs.length with
    | eq => exact absurd hcompare hne
    | lt => rfl
    | gt => rfl

theorem compare_cast (m n : ℕ) : Ord.compare (m : ℤ) n = Ord.compare m n := by
  rcases lt_trichotomy m n with hlt | rfl | hgt
  · rw [compare_lt_iff_lt.mpr hlt, compare_lt_iff_lt]
    exact_mod_cast hlt
  · simp
  · rw [compare_gt_iff_gt.mpr hgt, compare_gt_iff_gt]
    exact_mod_cast hgt

theorem compare_neg {α : Type} [AddCommGroup α] [LinearOrder α] [IsOrderedAddMonoid α] (a b : α) :
    Ord.compare (-a) (-b) = (Ord.compare a b).swap := by
  rcases lt_trichotomy a b with hlt | rfl | hgt
  · rw [compare_lt_iff_lt.mpr hlt, Ordering.swap, compare_gt_iff_gt]
    exact neg_lt_neg hlt
  · simp
  · rw [compare_gt_iff_gt.mpr hgt, Ordering.swap, compare_lt_iff_lt]
    exact neg_lt_neg hgt

/-- Exponents compare as the integers they stand for. -/
theorem compare_denotes {a b : DecimalExponent} {m n : ℤ} (ha : a.Denotes m) (hb : b.Denotes n) :
    a.compare b = Ord.compare m n := by
  cases ha with
  | small low high =>
    cases hb with
    | small low' high' => rfl
    | positive leading big =>
      exact (compare_lt_iff_lt.mpr (by omega)).symm
    | negative leading big =>
      exact (compare_gt_iff_gt.mpr (by omega)).symm
  | @positive digits leading big =>
    cases hb with
    | small low' high' => exact (compare_gt_iff_gt.mpr (by omega)).symm
    | @positive digits' leading' big' =>
      rw [compare_cast]
      exact compare_digits (ne_nil_of_big big) (ne_nil_of_big big') leading leading'
    | negative leading' big' => exact (compare_gt_iff_gt.mpr (by omega)).symm
  | @negative digits leading big =>
    cases hb with
    | small low' high' => exact (compare_lt_iff_lt.mpr (by omega)).symm
    | positive leading' big' => exact (compare_lt_iff_lt.mpr (by omega)).symm
    | @negative digits' leading' big' =>
      rw [compare_neg, compare_cast,
        ← compare_digits (ne_nil_of_big big.le) (ne_nil_of_big big'.le) leading leading']
      rfl

/-! ## Moving an exponent -/

theorem toNat_digitChar (digit : Fin 10) : (digitChar digit).toNat - 48 = digit.val := by
  revert digit
  decide

theorem natural_reverse_cons (digit : Fin 10) (digits : List (Fin 10)) :
    natural (digit :: digits).reverse = 10 * natural digits.reverse + digit.val := by
  rw [List.reverse_cons, natural_append]

/-- Adding: the digits and the carry left over are the sum. -/
theorem carryDigits_add (digits : List (Fin 10)) (carry : ℕ) : ∃ out : List (Fin 10), ∃ left,
    carryDigits false carry (digits.map digitChar) = (out.map digitChar, left) ∧
      out.length = digits.length ∧
      natural out.reverse + left * 10 ^ digits.length = natural digits.reverse + carry := by
  induction digits generalizing carry with
  | nil => exact ⟨[], carry, rfl, rfl, by simp⟩
  | cons digit digits ih =>
    by_cases hzero : carry = 0
    · refine ⟨digit :: digits, 0, ?_, rfl, ?_⟩
      · simp [carryDigits, hzero]
      · rw [hzero]
        ring
    obtain ⟨out, left, hout, hlength, hvalue⟩ :=
      ih (carry / 10 + if digit.val + carry % 10 ≥ 10 then 1 else 0)
    refine ⟨Fin.ofNat 10 (digit.val + carry % 10) :: out, left, ?_, ?_, ?_⟩
    · simp only [List.map_cons, carryDigits, if_neg hzero, toNat_digitChar, if_true, hout]
      rfl
    · simp [hlength]
    · rw [natural_reverse_cons, natural_reverse_cons, List.length_cons, pow_succ, Fin.val_ofNat,
        ← mul_assoc]
      split at hvalue <;> omega

/-- Subtracting: what is borrowed beyond the digits is left over. -/
theorem carryDigits_sub (digits : List (Fin 10)) (carry : ℕ) : ∃ out : List (Fin 10), ∃ left,
    carryDigits true carry (digits.map digitChar) = (out.map digitChar, left) ∧
      out.length = digits.length ∧
      natural out.reverse + carry = natural digits.reverse + left * 10 ^ digits.length := by
  induction digits generalizing carry with
  | nil => exact ⟨[], carry, rfl, rfl, by simp⟩
  | cons digit digits ih =>
    by_cases hzero : carry = 0
    · refine ⟨digit :: digits, 0, ?_, rfl, ?_⟩
      · simp [carryDigits, hzero]
      · rw [hzero]
        ring
    have hdigit := digit.isLt
    by_cases hborrow : digit.val < carry % 10
    · obtain ⟨out, left, hout, hlength, hvalue⟩ := ih (carry / 10 + 1)
      refine ⟨⟨digit.val + 10 - carry % 10, by omega⟩ :: out, left, ?_, ?_, ?_⟩
      · simp only [List.map_cons, carryDigits, if_neg hzero, toNat_digitChar, if_pos hborrow, hout,
          Bool.true_eq_false, if_false]
        rfl
      · simp [hlength]
      · rw [natural_reverse_cons, natural_reverse_cons, List.length_cons, pow_succ, ← mul_assoc]
        dsimp only
        omega
    · obtain ⟨out, left, hout, hlength, hvalue⟩ := ih (carry / 10)
      refine ⟨⟨digit.val - carry % 10, by omega⟩ :: out, left, ?_, ?_, ?_⟩
      · simp only [List.map_cons, carryDigits, if_neg hzero, toNat_digitChar, if_neg hborrow, hout,
          Bool.true_eq_false, if_false]
        rfl
      · simp [hlength]
      · rw [natural_reverse_cons, natural_reverse_cons, List.length_cons, pow_succ, ← mul_assoc]
        dsimp only
        omega

theorem dropWhile_zeros (digits : List (Fin 10)) :
    (digits.map digitChar).dropWhile (fun c ↦ c = '0') =
      (digits.dropWhile fun digit ↦ digit = 0).map digitChar := by
  have hzero (digit : Fin 10) : decide (digitChar digit = '0') = decide (digit = 0) := by
    revert digit
    decide
  rw [List.dropWhile_map]
  congr 2
  funext digit
  exact hzero digit

theorem head?_dropWhile_zeros (digits : List (Fin 10)) :
    (digits.dropWhile fun digit ↦ digit = 0).head? ≠ some 0 := by
  intro hhead
  have hnot := List.head?_dropWhile_not (fun digit : Fin 10 ↦ decide (digit = 0)) digits
  rw [hhead] at hnot
  simp at hnot

/-- A moved exponent: the digits of the sum, without leading zeros. -/
theorem moved_spec (digits : List (Fin 10)) {adjustment : ℤ}
    (h : 0 ≤ (natural digits : ℤ) + adjustment) : ∃ out : List (Fin 10),
    moved (digits.map digitChar) adjustment = out.map digitChar ∧ out.head? ≠ some 0 ∧
      (natural out : ℤ) = natural digits + adjustment := by
  have hreverse : (digits.map digitChar).reverse = digits.reverse.map digitChar := by simp
  have hback : natural digits.reverse.reverse = natural digits := by rw [List.reverse_reverse]
  unfold moved
  rw [hreverse]
  by_cases hnegative : adjustment < 0
  · obtain ⟨out, left, hout, hlength, hvalue⟩ :=
      carryDigits_sub digits.reverse adjustment.natAbs
    rw [hback, List.length_reverse] at hvalue
    have hleft : left = 0 := by
      by_contra hne
      have hlt := natural_lt out.reverse
      rw [List.length_reverse, hlength, List.length_reverse] at hlt
      have hmul : 10 ^ digits.length ≤ left * 10 ^ digits.length :=
        Nat.le_mul_of_pos_left _ (Nat.pos_of_ne_zero hne)
      omega
    refine ⟨out.reverse.dropWhile fun digit ↦ digit = 0, ?_, head?_dropWhile_zeros _, ?_⟩
    · rw [decide_eq_true hnegative, hout, hleft]
      simp only [gt_iff_lt, lt_self_iff_false, if_false]
      rw [← List.map_reverse, dropWhile_zeros]
    · rw [natural_dropWhile]
      rw [hleft] at hvalue
      omega
  · obtain ⟨out, left, hout, hlength, hvalue⟩ :=
      carryDigits_add digits.reverse adjustment.natAbs
    rw [hback, List.length_reverse] at hvalue
    rw [decide_eq_false hnegative, hout]
    by_cases hleft : left > 0
    · refine ⟨Number.decimalDigits left ++ out.reverse, ?_, ?_, ?_⟩
      · simp only [if_pos hleft]
        rw [printNat_eq, List.map_append, List.map_reverse]
      · rw [List.head?_append_of_ne_nil _ (Number.decimalDigits_ne_nil left),
          Number.decimalDigits, if_neg hleft.ne']
        exact Number.head?_digitsBelow hleft.ne' le_rfl
      · have hdigits : natural (Number.decimalDigits left) = left :=
          Number.digitsValue_decimalDigits left
        rw [natural_append_list, hdigits, List.length_reverse, hlength, List.length_reverse]
        omega
    · refine ⟨out.reverse.dropWhile fun digit ↦ digit = 0, ?_, head?_dropWhile_zeros _, ?_⟩
      · simp only [if_neg hleft]
        rw [← List.map_reverse, dropWhile_zeros]
      · rw [natural_dropWhile]
        have hzero : left = 0 := by omega
        rw [hzero] at hvalue
        omega

theorem ofDigits_denotes (negative : Bool) {digits : List (Fin 10)} (hne : digits ≠ [])
    (hhead : digits.head? ≠ some 0) :
    (ofDigits negative (digits.map digitChar)).Denotes (signed negative (natural digits)) := by
  have hsplit : splitSign (if negative then '-' :: digits.map digitChar
      else digits.map digitChar) = (negative, digits.map digitChar) := by
    cases negative with
    | true => rfl
    | false => exact splitSign_digits hne
  have hvalue : digitsValue digits = natural digits := rfl
  rw [ofDigits, parseI64_signed hsplit hne, hvalue]
  split_ifs with hrange
  · exact .small hrange.1 hrange.2
  · cases negative with
    | true =>
      rw [signed, if_pos rfl] at hrange ⊢
      exact .negative hhead (by omega)
    | false =>
      rw [signed, if_neg Bool.false_ne_true] at hrange ⊢
      exact .positive hhead (by omega)

/-- The exponent of a token, moved by an offset. -/
theorem shifted_denotes (sign : Option Bool) {digits : List (Fin 10)} (hne : digits ≠ [])
    {offset : ℤ} (hoffset : |offset| < 2 ^ 63) :
    (shifted (Exponent.signChars sign ++ digits.map digitChar) offset).Denotes
      (signed (sign = some true) (natural digits) + offset) := by
  obtain ⟨hlow, hhigh⟩ := abs_lt.mp hoffset
  have hvalue : digitsValue digits = natural digits := rfl
  have hsplit : splitSign (Exponent.signChars sign ++ digits.map digitChar) =
      (decide (sign = some true), digits.map digitChar) := by
    rcases sign with _ | _ | _
    · exact splitSign_digits hne
    · rfl
    · rfl
  have hhead : decide ((Exponent.signChars sign ++ digits.map digitChar).head? = some '-') =
      decide (sign = some true) := by
    rcases sign with _ | _ | _
    · obtain ⟨c, text, hstart, hc⟩ := digits_start hne
      have hminus : c ≠ '-' := by
        rintro rfl
        exact absurd hc (by decide)
      simp [Exponent.signChars, hstart, hminus]
    · rfl
    · rfl
  have hstripped : ((Exponent.signChars sign ++ digits.map digitChar).dropWhile
      fun c ↦ c = '-' ∨ c = '+') = digits.map digitChar := by
    obtain ⟨c, text, hstart, hc⟩ := digits_start hne
    have hplain : c ≠ '-' ∧ c ≠ '+' := by
      constructor <;> rintro rfl <;> exact absurd hc (by decide)
    rcases sign with _ | _ | _ <;> simp [Exponent.signChars, hstart, hplain]
  have hparse := parseI64_signed hsplit hne
  rw [hvalue] at hparse
  unfold shifted
  rw [hparse]
  generalize hnegative : decide (sign = some true) = negative at hparse hhead
  split
  · rename_i value hsome
    obtain ⟨parsed, hparsed, hadded⟩ := Option.bind_eq_some_iff.mp hsome
    rw [Option.ite_none_right_eq_some, Option.some.injEq] at hparsed
    obtain ⟨-, rfl⟩ := hparsed
    rw [checkedAdd, Option.ite_none_right_eq_some, Option.some.injEq] at hadded
    obtain ⟨hrange, rfl⟩ := hadded
    exact .small hrange.1 hrange.2
  · rename_i hnone
    -- the exponent or the sum is out of range, so the digits outweigh the offset
    have hout : ¬ (-2 ^ 63 ≤ signed negative (natural digits) ∧
        signed negative (natural digits) < 2 ^ 63 ∧
        -2 ^ 63 ≤ signed negative (natural digits) + offset ∧
        signed negative (natural digits) + offset < 2 ^ 63) := by
      rintro ⟨h₁, h₂, h₃⟩
      rw [if_pos ⟨h₁, h₂⟩, Option.bind_some, checkedAdd, if_pos h₃] at hnone
      cases hnone
    simp only [hhead, hstripped]
    rw [dropWhile_zeros]
    set plain := digits.dropWhile fun digit ↦ digit = 0 with hplain
    have hnatural : natural plain = natural digits := natural_dropWhile digits
    have hsum : 0 < (natural plain : ℤ) + if negative = true then -offset else offset := by
      rw [hnatural]
      cases negative <;> simp only [signed, if_true, if_false, Bool.false_eq_true] at hout ⊢ <;>
        omega
    obtain ⟨out, hmoved, hleading, htotal⟩ := moved_spec plain hsum.le
    have hne' : out ≠ [] := by
      rintro rfl
      rw [natural_nil] at htotal
      omega
    have hdenotes := ofDigits_denotes negative hne' hleading
    have hsigned : signed negative (natural out) =
        signed negative (natural digits) + offset := by
      rw [hnatural] at htotal
      cases negative <;> simp only [signed, if_true, if_false, Bool.false_eq_true] at htotal ⊢ <;>
        omega
    rw [hmoved, ← hsigned]
    exact hdenotes

end DecimalExponent

/-! ## Keys -/

namespace NumericKey

/-- The number with these digits after the point. -/
def value (negative : Bool) (digits : List (Fin 10)) (exponent : ℤ) : ℚ :=
  if negative then -(fraction digits * 10 ^ exponent) else fraction digits * 10 ^ exponent

/-- The number a key stands for. -/
structure Denotes (key : NumericKey) (number : ℚ) : Prop where
  integer : ∀ z ∈ key.integer, number = z
  form : (key.digits = [] ∧ number = 0) ∨ ∃ digits : List (Fin 10), ∃ exponent : ℤ,
    key.digits ≠ [] ∧ (key.digits.filter fun c ↦ c ≠ '.') = digits.map digitChar ∧
      digits ≠ [] ∧ digits.head? ≠ some 0 ∧ key.magnitude.Denotes exponent ∧
      number = value key.negative digits exponent

theorem value_pos {digits : List (Fin 10)} (hne : digits ≠ []) (hhead : digits.head? ≠ some 0)
    (exponent : ℤ) : 0 < value false digits exponent := by
  have hfraction := fraction_pos hne hhead
  rw [value, if_neg Bool.false_ne_true]
  positivity

theorem value_neg {digits : List (Fin 10)} (hne : digits ≠ []) (hhead : digits.head? ≠ some 0)
    (exponent : ℤ) : value true digits exponent < 0 := by
  have hfraction := fraction_pos hne hhead
  rw [value, if_pos rfl, neg_lt_zero]
  positivity

theorem compare_value (negative : Bool) {as bs : List (Fin 10)} (has : as ≠ []) (hbs : bs ≠ [])
    (hahead : as.head? ≠ some 0) (hbhead : bs.head? ≠ some 0) (m n : ℤ) :
    Ord.compare (value negative as m) (value negative bs n) =
      if negative then ((Ord.compare m n).then (comparePadded 0 as bs)).swap
      else (Ord.compare m n).then (comparePadded 0 as bs) := by
  cases negative with
  | true =>
    simp only [value, if_true]
    rw [DecimalExponent.compare_neg, compare_scaled has hbs hahead hbhead]
  | false =>
    simp only [value, Bool.false_eq_true, if_false]
    rw [compare_scaled has hbs hahead hbhead]

/-- Keys compare as the numbers they stand for. -/
theorem compare_denotes {key key' : NumericKey} {q q' : ℚ} (h : key.Denotes q)
    (h' : key'.Denotes q') : key.compare key' = Ord.compare q q' := by
  unfold NumericKey.compare
  split
  · rename_i a b ha hb
    rw [h.integer a ha, h'.integer b hb]
    rcases lt_trichotomy a b with hlt | rfl | hgt
    · rw [compare_lt_iff_lt.mpr hlt, eq_comm, compare_lt_iff_lt]
      exact_mod_cast hlt
    · simp
    · rw [compare_gt_iff_gt.mpr hgt, eq_comm, compare_gt_iff_gt]
      exact_mod_cast hgt
  rcases h.form with ⟨hzero, rfl⟩ | ⟨as, m, hnonzero, hdigits, has, hahead, hm, rfl⟩
  · rw [if_pos hzero]
    rcases h'.form with ⟨hzero', rfl⟩ | ⟨bs, n, hnonzero', hdigits', hbs, hbhead, hn, rfl⟩
    · rw [if_pos hzero']
      simp
    · rw [if_neg hnonzero']
      cases key'.negative with
      | true => exact (compare_gt_iff_gt.mpr (value_neg hbs hbhead n)).symm
      | false => exact (compare_lt_iff_lt.mpr (value_pos hbs hbhead n)).symm
  rw [if_neg hnonzero]
  rcases h'.form with ⟨hzero', rfl⟩ | ⟨bs, n, hnonzero', hdigits', hbs, hbhead, hn, rfl⟩
  · rw [if_pos hzero']
    cases key.negative with
    | true => exact (compare_lt_iff_lt.mpr (value_neg has hahead m)).symm
    | false => exact (compare_gt_iff_gt.mpr (value_pos has hahead m)).symm
  rw [if_neg hnonzero']
  by_cases hsign : key.negative = key'.negative
  · rw [if_neg (not_not.mpr hsign), ← hsign, compare_value _ has hbs hahead hbhead,
      DecimalExponent.compare_denotes hm hn, hdigits, hdigits',
      ← comparePadded_map DecimalExponent.compare_digitChar 0 as bs]
    rfl
  · rw [if_pos hsign]
    cases hnegative : key.negative with
    | true =>
      have hpositive : key'.negative = false := by
        cases h : key'.negative with
        | true => exact absurd (hnegative.trans h.symm) hsign
        | false => rfl
      rw [hpositive]
      exact (compare_lt_iff_lt.mpr
        ((value_neg has hahead m).trans (value_pos hbs hbhead n))).symm
    | false =>
      have hminus : key'.negative = true := by
        cases h : key'.negative with
        | true => rfl
        | false => exact absurd (hnegative.trans h.symm) hsign
      rw [hminus]
      exact (compare_gt_iff_gt.mpr
        ((value_neg hbs hbhead n).trans (value_pos has hahead m))).symm

theorem Denotes.abs {key : NumericKey} {q : ℚ} (h : key.Denotes q) : key.abs.Denotes |q| := by
  constructor
  · intro z hz
    obtain ⟨w, hw, rfl⟩ := Option.map_eq_some_iff.mp hz
    rw [h.integer w hw]
    simp
  · rcases h.form with ⟨hzero, rfl⟩ | ⟨digits, exponent, hne, hdigits, hne', hhead, he, rfl⟩
    · exact Or.inl ⟨hzero, abs_zero⟩
    · refine Or.inr ⟨digits, exponent, hne, hdigits, hne', hhead, he, ?_⟩
      have hpos := value_pos hne' hhead exponent
      change |value key.negative digits exponent| = value false digits exponent
      cases key.negative with
      | true =>
        have hneg : value true digits exponent = -value false digits exponent := rfl
        rw [hneg, abs_neg, abs_of_pos hpos]
      | false => exact abs_of_pos hpos

/-! ## The key of a token -/

theorem wideInteger_eq {number : Number} {z : ℤ} (h : z ∈ wideInteger number) :
    number.toRat = z := by
  unfold wideInteger at h
  rw [Option.mem_def, Option.or_eq_some_iff] at h
  rcases h with h | ⟨-, h⟩
  · rw [Number.asI64, Option.ite_none_right_eq_some, Option.some.injEq] at h
    rw [Number.toRat_of_isInteger h.1.1, h.2]
  · obtain ⟨n, hn, rfl⟩ := Option.map_eq_some_iff.mp h
    rw [Number.asU64, Option.ite_none_right_eq_some, Option.some.injEq] at hn
    rw [Number.toRat_of_isInteger hn.1.1, Number.integerValue, if_neg (by simp [hn.1.2.1]), hn.2]
    rfl

/-- The digits before and after the point. -/
def mantissaChars (number : Number) : List Char :=
  number.integer.map digitChar ++ number.fractionChars

theorem mantissa_plain (number : Number) : ∀ c ∈ mantissaChars number, c ≠ 'e' ∧ c ≠ 'E' := by
  have hdigits (digits : List (Fin 10)) : ∀ c ∈ digits.map digitChar, c ≠ 'e' ∧ c ≠ 'E' := by
    have hall : ∀ digit : Fin 10, digitChar digit ≠ 'e' ∧ digitChar digit ≠ 'E' := by decide
    intro c hc
    obtain ⟨digit, -, rfl⟩ := List.mem_map.mp hc
    exact hall digit
  intro c hc
  unfold mantissaChars Number.fractionChars at hc
  cases List.mem_append.mp hc with
  | inl hinteger => exact hdigits _ c hinteger
  | inr hfraction =>
    cases hsome : number.fraction with
    | none => simp [hsome] at hfraction
    | some digits =>
      rw [hsome] at hfraction
      cases List.mem_cons.mp hfraction with
      | inl hpoint =>
        rw [hpoint]
        decide
      | inr hdigit => exact hdigits _ c hdigit

/-- The exponent's sign and digits; a token without one has the exponent 0. -/
def exponentSign (number : Number) : Option Bool := number.exponent.bind Exponent.sign

def exponentDigits (number : Number) : List (Fin 10) := number.exponent.elim [0] Exponent.digits

theorem exponentDigits_ne_nil (number : Number) : exponentDigits number ≠ [] := by
  unfold exponentDigits
  cases number.exponent with
  | none => simp
  | some exponent => exact exponent.digits_ne_nil

theorem splitExponent_chars (number : Number) :
    splitExponent (mantissaChars number ++ number.exponentChars) =
      (mantissaChars number,
        Exponent.signChars (exponentSign number) ++ (exponentDigits number).map digitChar) := by
  have hplain := mantissa_plain number
  have htake : ((mantissaChars number ++ number.exponentChars).takeWhile
      fun c ↦ c ≠ 'e' ∧ c ≠ 'E') = mantissaChars number := by
    rw [List.takeWhile_append_of_pos fun c hc ↦ by simpa using hplain c hc]
    unfold Number.exponentChars
    cases number.exponent with
    | none => simp
    | some exponent =>
      dsimp only
      rw [Exponent.chars_eq, List.takeWhile_cons_of_neg (by cases exponent.upper <;> simp),
        List.append_nil]
  unfold splitExponent
  simp only [htake, List.drop_left]
  unfold Number.exponentChars exponentSign exponentDigits
  cases number.exponent with
  | none => rfl
  | some exponent => rfl

/-- The exponent of a token as an integer. -/
def exponentOf (number : Number) : ℤ := number.exponent.elim 0 Exponent.value

theorem signed_exponent (number : Number) :
    signed (exponentSign number = some true) (natural (exponentDigits number)) =
      exponentOf number := by
  unfold exponentSign exponentDigits exponentOf
  cases number.exponent with
  | none => rfl
  | some exponent => simp [signed, Exponent.value, natural, digitsValue]

/-- All digits of the mantissa. -/
def mantissaDigits (number : Number) : List (Fin 10) := number.integer ++ number.fraction.getD []

theorem toRat_eq (number : Number) :
    number.toRat = if number.negative then
        -(natural (mantissaDigits number) *
          (10 : ℚ) ^ (exponentOf number - (number.fraction.getD []).length))
      else natural (mantissaDigits number) *
        (10 : ℚ) ^ (exponentOf number - (number.fraction.getD []).length) := rfl

theorem filter_point_digits (digits : List (Fin 10)) :
    ((digits.map digitChar).filter fun c ↦ c ≠ '.') = digits.map digitChar := by
  have hall : ∀ digit : Fin 10, digitChar digit ≠ '.' := by decide
  rw [List.filter_eq_self]
  intro c hc
  obtain ⟨digit, -, rfl⟩ := List.mem_map.mp hc
  simpa using hall digit

theorem filter_point (number : Number) :
    ((mantissaChars number).filter fun c ↦ c ≠ '.') = (mantissaDigits number).map digitChar := by
  unfold mantissaChars mantissaDigits Number.fractionChars
  rw [List.filter_append, filter_point_digits, List.map_append]
  cases number.fraction with
  | none => rfl
  | some digits =>
    rw [List.filter_cons_of_neg (by simp), filter_point_digits]
    rfl

theorem findIdx_point (number : Number) :
    ((mantissaChars number).findIdx fun c ↦ c = '.') = number.integer.length := by
  have hall : ∀ digit : Fin 10, digitChar digit ≠ '.' := by decide
  have hbefore : ((number.integer.map digitChar).findIdx fun c ↦ c = '.') =
      (number.integer.map digitChar).length := by
    rw [List.findIdx_eq_length]
    intro c hc
    obtain ⟨digit, -, rfl⟩ := List.mem_map.mp hc
    exact decide_eq_false (hall digit)
  unfold mantissaChars Number.fractionChars
  rw [List.findIdx_append, hbefore, if_neg (lt_irrefl _), List.length_map]
  cases number.fraction <;> simp [List.findIdx_cons]

theorem scaled_natural (digits : List (Fin 10)) (exponent : ℤ) :
    natural digits * (10 : ℚ) ^ (exponent - digits.length) = fraction digits * 10 ^ exponent := by
  rw [← fraction_mul_pow, mul_assoc, ← zpow_natCast, ← zpow_add₀ (by norm_num)]
  congr 2
  ring

/-- The key made of the parts of a token whose first digit above zero is at `first`. -/
theorem denotes_parts {number : Number} {integer : Option ℤ} {first offset : ℕ} {point : ℤ}
    (digits : List (Fin 10)) (hinteger : ∀ z ∈ integer, number.toRat = z)
    (hdrop : ((mantissaChars number).drop first).filter (fun c ↦ c ≠ '.') = digits.map digitChar)
    (hne : digits ≠ []) (hhead : digits.head? ≠ some 0)
    (hnatural : natural (mantissaDigits number) = natural digits)
    (hlength : point - offset = digits.length - (number.fraction.getD []).length)
    (hbound : |point - offset| < 2 ^ 63) :
    Denotes ⟨integer, number.negative,
      .shifted (Exponent.signChars (exponentSign number) ++ (exponentDigits number).map digitChar)
        (point - offset), (mantissaChars number).drop first⟩ number.toRat := by
  constructor
  · exact hinteger
  · refine Or.inr ⟨digits, exponentOf number + (point - offset), ?_, hdrop, hne, hhead, ?_, ?_⟩
    · intro hnil
      dsimp only at hnil
      rw [hnil, List.filter_nil, eq_comm, List.map_eq_nil_iff] at hdrop
      exact hne hdrop
    · rw [← signed_exponent]
      exact DecimalExponent.shifted_denotes _ (exponentDigits_ne_nil number) hbound
    · have hscale : natural (mantissaDigits number) *
          (10 : ℚ) ^ (exponentOf number - (number.fraction.getD []).length) =
          fraction digits * 10 ^ (exponentOf number + (point - offset)) := by
        rw [hnatural, hlength, ← scaled_natural]
        congr 2
        ring
      rw [toRat_eq, hscale, value]

/-- Zeros before the first other digit, and the rest. -/
theorem exists_first (digits : List (Fin 10)) :
    (∀ digit ∈ digits, digit = 0) ∨ ∃ zeros rest : List (Fin 10), digits = zeros ++ rest ∧
      (∀ digit ∈ zeros, digit = 0) ∧ rest ≠ [] ∧ rest.head? ≠ some 0 := by
  by_cases hall : ∀ digit ∈ digits, digit = 0
  · exact Or.inl hall
  · refine Or.inr ⟨digits.takeWhile fun digit ↦ digit = 0, digits.dropWhile fun digit ↦ digit = 0,
      (List.takeWhile_append_dropWhile).symm, ?_, ?_, DecimalExponent.head?_dropWhile_zeros digits⟩
    · exact fun digit hdigit ↦ by simpa using List.mem_takeWhile_imp hdigit
    · intro hnil
      exact hall fun digit hdigit ↦ by simpa using List.dropWhile_eq_nil_iff.mp hnil digit hdigit

theorem natural_zeros {zeros : List (Fin 10)} (h : ∀ digit ∈ zeros, digit = 0)
    (rest : List (Fin 10)) : natural (zeros ++ rest) = natural rest := by
  induction zeros with
  | nil => rfl
  | cons digit zeros ih =>
    rw [List.forall_mem_cons] at h
    rw [List.cons_append, natural_cons, ih h.2, h.1]
    simp

theorem findIdx?_zeros {zeros : List (Fin 10)} (h : ∀ digit ∈ zeros, digit = 0) :
    ((zeros.map digitChar).findIdx? fun c ↦ c ≠ '0' ∧ c ≠ '.') = none := by
  rw [List.findIdx?_eq_none_iff]
  intro c hc
  obtain ⟨digit, hdigit, rfl⟩ := List.mem_map.mp hc
  rw [h digit hdigit]
  rfl

theorem findIdx?_rest {rest : List (Fin 10)} (hne : rest ≠ []) (hhead : rest.head? ≠ some 0)
    (tail : List Char) :
    ((rest.map digitChar ++ tail).findIdx? fun c ↦ c ≠ '0' ∧ c ≠ '.') = some 0 := by
  obtain ⟨digit, others, rfl⟩ := List.exists_cons_of_ne_nil hne
  have hall : ∀ digit : Fin 10, digit ≠ 0 → digitChar digit ≠ '0' ∧ digitChar digit ≠ '.' := by
    decide
  have hdigit := hall digit (by simpa using hhead)
  simp [List.findIdx?_cons, hdigit]

/-- The key of a token stands for its number, with its integer or without. -/
theorem fromToken_denotes {number : Number} {integer : Option ℤ}
    (hwide : ∀ z ∈ integer, number.toRat = z) (h : number.chars.length < 2 ^ 63) :
    (fromToken number.chars integer).Denotes number.toRat := by
  have hchars : number.chars = (if number.negative then ['-'] else []) ++
      (mantissaChars number ++ number.exponentChars) := by
    have hparts := Number.chars_append number []
    simpa only [List.append_nil, mantissaChars, List.append_assoc] using hparts
  obtain ⟨c, text, hstart, hc⟩ := digits_start number.integer_ne_nil
  have hminus : c ≠ '-' := by
    rintro rfl
    exact absurd hc (by decide)
  have hmantissa : mantissaChars number = c :: (text ++ number.fractionChars) := by
    rw [mantissaChars, hstart, List.cons_append]
  have hnegative : decide (number.chars.head? = some '-') = number.negative := by
    rw [hchars, hmantissa]
    cases number.negative <;> simp [hminus]
  have hunsigned : (if number.negative = true then number.chars.tail else number.chars) =
      mantissaChars number ++ number.exponentChars := by
    rw [hchars]
    cases number.negative <;> rfl
  have hlength : number.integer.length + (number.fraction.getD []).length < 2 ^ 63 := by
    have hle : (mantissaDigits number).length ≤ (mantissaChars number).length := by
      rw [← List.length_map (f := digitChar), ← filter_point]
      exact List.length_filter_le _ _
    rw [hchars, List.length_append, List.length_append] at h
    rw [mantissaDigits, List.length_append] at hle
    omega
  unfold fromToken
  simp only [hnegative, hunsigned, splitExponent_chars, findIdx_point]
  by_cases hinteger : number.integer.head? = some 0
  -- a zero before the point: the first digit is behind it
  · have hzero := number.integer_canonical hinteger
    have hzeroMantissa : mantissaChars number = '0' :: number.fractionChars := by
      rw [mantissaChars, hzero]
      rfl
    have hdigits : natural (mantissaDigits number) = natural (number.fraction.getD []) := by
      rw [mantissaDigits, hzero]
      exact natural_zeros (by simp) _
    have hzeroDenotes (hnone : natural (mantissaDigits number) = 0) :
        zero.Denotes number.toRat := by
      have htoRat : number.toRat = 0 := by
        rw [toRat_eq, hnone]
        simp
      rw [htoRat]
      refine ⟨fun z hz ↦ ?_, Or.inl ⟨rfl, rfl⟩⟩
      rw [← Option.some.inj hz]
      rfl
    cases hfraction : number.fraction with
    | none =>
      have hnone : ((mantissaChars number).findIdx? fun c ↦ c ≠ '0' ∧ c ≠ '.') = none := by
        rw [hzeroMantissa, Number.fractionChars, hfraction]
        rfl
      rw [hnone]
      refine hzeroDenotes ?_
      rw [hdigits, hfraction]
      rfl
    | some digits =>
      have hmantissa' : mantissaChars number = '0' :: '.' :: digits.map digitChar := by
        rw [hzeroMantissa, Number.fractionChars, hfraction]
      have hidx : ((mantissaChars number).findIdx? fun c ↦ c ≠ '0' ∧ c ≠ '.') =
          ((digits.map digitChar).findIdx? fun c ↦ c ≠ '0' ∧ c ≠ '.').map (· + 2) := by
        rw [hmantissa', List.findIdx?_cons, List.findIdx?_cons]
        simp [Option.map_map, Function.comp_def]
      have hpoint : number.integer.length = 1 := by rw [hzero]; rfl
      rw [hfraction, Option.getD_some] at hdigits hlength
      rcases exists_first digits with hall | ⟨zeros, rest, rfl, hzeros, hne, hhead⟩
      · rw [hidx, findIdx?_zeros hall]
        refine hzeroDenotes ?_
        have hsum := natural_zeros hall []
        rw [List.append_nil] at hsum
        rw [hdigits, hsum, natural_nil]
      · have hrest := findIdx?_rest hne hhead []
        rw [List.append_nil] at hrest
        rw [hidx, List.map_append, List.findIdx?_append, findIdx?_zeros hzeros, hrest, hpoint]
        simp only [List.length_map, Option.map_some, Option.none_or, Nat.zero_add]
        have hbehind : zeros.length + 2 > 1 := by omega
        rw [if_pos hbehind]
        have hbound : |((1 : ℕ) : ℤ) - (zeros.length + 2 - 1 : ℕ)| < 2 ^ 63 := by
          rw [List.length_append] at hlength
          rw [abs_lt]
          omega
        refine denotes_parts rest hwide ?_ hne hhead ?_ ?_ hbound
        · rw [hmantissa', List.map_append]
          have hdrop : (('0' :: '.' :: (zeros.map digitChar ++ rest.map digitChar)).drop
              (zeros.length + 2)) = rest.map digitChar := by
            simp
          rw [hdrop, filter_point_digits]
        · rw [hdigits, natural_zeros hzeros]
        · rw [hfraction, Option.getD_some, List.length_append]
          push_cast
          omega
  -- a digit above zero before the point
  · have hfirst : ((mantissaChars number).findIdx? fun c ↦ c ≠ '0' ∧ c ≠ '.') = some 0 :=
      findIdx?_rest number.integer_ne_nil hinteger _
    rw [hfirst]
    have hsmall : ¬ 0 > number.integer.length := by omega
    simp only [if_neg hsmall]
    have hbound : |(number.integer.length : ℤ) - (0 - 0 : ℕ)| < 2 ^ 63 := by
      rw [abs_lt]
      omega
    refine denotes_parts (mantissaDigits number) hwide ?_ ?_ ?_ rfl ?_ hbound
    · rw [List.drop_zero, filter_point]
    · unfold mantissaDigits
      simp [number.integer_ne_nil]
    · rw [mantissaDigits, List.head?_append_of_ne_nil _ number.integer_ne_nil]
      exact hinteger
    · rw [mantissaDigits, List.length_append]
      push_cast
      ring

/-- The key of a number stands for the number. -/
theorem new_denotes {number : Number} (h : number.chars.length < 2 ^ 63) :
    (new number).Denotes number.toRat :=
  fromToken_denotes (fun _ hz ↦ wideInteger_eq hz) h

end NumericKey

/-! ## The order of tokens -/

/-- A number token in memory: a string is shorter than `2 ^ 63` bytes.  Its 64-bit integer is
cached or not. -/
structure Token where
  number : Number
  cached : Option ℤ
  fits : number.chars.length < 2 ^ 63
  cached_eq : cached = none ∨ cached = NumericKey.wideInteger number

namespace Token

def key (token : Token) : NumericKey := .fromToken token.number.chars token.cached

theorem key_denotes (token : Token) : token.key.Denotes token.number.toRat := by
  refine NumericKey.fromToken_denotes (fun z hz ↦ ?_) token.fits
  rcases token.cached_eq with hnone | hwide
  · rw [hnone] at hz
    cases hz
  · exact NumericKey.wideInteger_eq (hwide ▸ hz)

theorem compare_key (a b : Token) :
    a.key.compare b.key = Ord.compare a.number.toRat b.number.toRat :=
  NumericKey.compare_denotes a.key_denotes b.key_denotes

end Token

/-- Tokens of any length compare as the rational numbers they denote, so the order is a total
preorder and does not depend on how a number is spelled. -/
theorem numeric_key_exact (a b c : Token) :
    a.key.compare b.key = Ord.compare a.number.toRat b.number.toRat ∧
      b.key.compare a.key = (a.key.compare b.key).swap ∧
      (a.key.compare b.key ≠ .gt → b.key.compare c.key ≠ .gt → a.key.compare c.key ≠ .gt) ∧
      (a.number.toRat = b.number.toRat → a.key.compare b.key = .eq ∧
        a.key.compare c.key = b.key.compare c.key ∧ c.key.compare a.key = c.key.compare b.key) := by
  simp only [Token.compare_key]
  refine ⟨trivial, (Std.OrientedOrd.eq_swap), fun hab hbc ↦ ?_, fun heq ↦ ?_⟩
  · rw [ne_eq, compare_gt_iff_gt, not_lt] at hab hbc ⊢
    exact hab.trans hbc
  · rw [heq]
    exact ⟨compare_eq_iff_eq.mpr rfl, rfl, rfl⟩

end Rvx.Tables
