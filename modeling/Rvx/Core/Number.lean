import Mathlib.Data.List.Basic
import Rvx.Lib.Binary64
import Rvx.Lib.Decimal

/-!
# Arbitrary-precision JSON numbers

The workspace enables the `arbitrary_precision` feature of its JSON library, so a number is the
token it was written with and equality of numbers is equality of tokens.  A `Number` holds the
parts of such a token with the grammar's own side conditions; the three numeric views read it the
way the standard library parses the token as `i64`, `u64` and `f64`.
-/

namespace Rvx.Core

/-- The exponent part of a number token. -/
structure Exponent where
  upper : Bool
  sign : Option Bool
  digits : List (Fin 10)
  digits_ne_nil : digits ≠ []
deriving DecidableEq

/-- A JSON number token, split into its parts. -/
structure Number where
  negative : Bool
  integer : List (Fin 10)
  fraction : Option (List (Fin 10))
  exponent : Option Exponent
  integer_ne_nil : integer ≠ []
  integer_canonical : integer.head? = some 0 → integer = [0]
  fraction_ne_nil : fraction ≠ some []
deriving DecidableEq

def digitChar (digit : Fin 10) : Char := Nat.digitChar digit.val

/-- The natural number written by a digit list. -/
def digitsValue (digits : List (Fin 10)) : ℕ :=
  digits.foldl (fun value digit ↦ 10 * value + digit.val) 0

namespace Exponent

/-- The exponent's spelling; a sign is `some true` when it is a minus. -/
def chars (exponent : Exponent) : List Char :=
  (if exponent.upper then 'E' else 'e') ::
    (match exponent.sign with
      | none => []
      | some minus => [if minus then '-' else '+']) ++ exponent.digits.map digitChar

def value (exponent : Exponent) : ℤ :=
  if exponent.sign = some true then -(digitsValue exponent.digits : ℤ)
  else digitsValue exponent.digits

end Exponent

namespace Number

/-- The token as it is printed. -/
def chars (number : Number) : List Char :=
  (if number.negative then ['-'] else []) ++ number.integer.map digitChar ++
    (match number.fraction with
      | none => []
      | some digits => '.' :: digits.map digitChar) ++
    (match number.exponent with
      | none => []
      | some exponent => exponent.chars)

/-- A token without fraction and exponent. -/
def IsInteger (number : Number) : Prop := number.fraction = none ∧ number.exponent = none

instance (number : Number) : Decidable number.IsInteger :=
  inferInstanceAs (Decidable (_ ∧ _))

/-- The rational number the token denotes. -/
def toRat (number : Number) : ℚ :=
  let fraction := number.fraction.getD []
  let magnitude : ℚ := digitsValue (number.integer ++ fraction) *
    10 ^ ((number.exponent.elim 0 Exponent.value) - fraction.length)
  if number.negative then -magnitude else magnitude

/-- The signed value of the integer digits. -/
def integerValue (number : Number) : ℤ :=
  if number.negative then -(digitsValue number.integer : ℤ) else digitsValue number.integer

/-- `token.parse::<i64>()`. -/
def asI64 (number : Number) : Option ℤ :=
  if number.IsInteger ∧ -2 ^ 63 ≤ number.integerValue ∧ number.integerValue < 2 ^ 63 then
    some number.integerValue
  else none

/-- `token.parse::<u64>()`; a sign is not accepted, not even before zero. -/
def asU64 (number : Number) : Option ℕ :=
  if number.IsInteger ∧ number.negative = false ∧ digitsValue number.integer < 2 ^ 64 then
    some (digitsValue number.integer)
  else none

/-- `token.parse::<f64>()`, kept only when finite. -/
def asF64 (number : Number) : Option ℚ := Binary64.round number.toRat

def isI64 (number : Number) : Bool := number.asI64.isSome

def isU64 (number : Number) : Bool := number.asU64.isSome

/-- A token with a fraction or an exponent whose double is finite. -/
def isF64 (number : Number) : Bool := !decide number.IsInteger && number.asF64.isSome

theorem toRat_of_isInteger {number : Number} (h : number.IsInteger) :
    number.toRat = number.integerValue := by
  simp only [toRat, h.1, h.2, integerValue]
  split <;> simp

/-- Every number that passes validation has a finite double. -/
theorem asF64_isSome {number : Number}
    (h : number.isI64 = true ∨ number.isU64 = true ∨ number.isF64 = true) :
    number.asF64.isSome := by
  rcases h with h | h | h
  · have hspec : number.IsInteger ∧ -2 ^ 63 ≤ number.integerValue ∧
        number.integerValue < 2 ^ 63 := by
      unfold isI64 asI64 at h
      split at h
      · assumption
      · simp at h
    have habs : |number.toRat| ≤ 2 ^ 63 := by
      rw [toRat_of_isInteger hspec.1, abs_le]
      exact ⟨by exact_mod_cast hspec.2.1, by exact_mod_cast hspec.2.2.le⟩
    exact Binary64.round_isSome (lt_of_le_of_lt habs (by norm_num))
  · have hspec : number.IsInteger ∧ number.negative = false ∧
        digitsValue number.integer < 2 ^ 64 := by
      unfold isU64 asU64 at h
      split at h
      · assumption
      · simp at h
    apply Binary64.round_isSome
    rw [toRat_of_isInteger hspec.1]
    simp only [integerValue, hspec.2.1, Bool.false_eq_true, if_false, Int.cast_natCast,
      Nat.abs_cast]
    exact_mod_cast hspec.2.2
  · exact (by simpa [isF64] using h : ¬ number.IsInteger ∧ number.asF64.isSome).2

/-! ## Tokens of integers -/

/-- The digits of a number above zero, most significant first. -/
def digitsBelow : (fuel n : ℕ) → List (Fin 10)
  | 0, _ => []
  | fuel + 1, n => if n = 0 then [] else digitsBelow fuel (n / 10) ++ [Fin.ofNat 10 n]

def decimalDigits (n : ℕ) : List (Fin 10) := if n = 0 then [0] else digitsBelow n n

theorem digitsBelow_ne_nil {fuel n : ℕ} (hn : n ≠ 0) (hfuel : n ≤ fuel) :
    digitsBelow fuel n ≠ [] := by
  cases fuel with
  | zero => omega
  | succ fuel => simp [digitsBelow, hn]

/-- The leading digit is not zero. -/
theorem head?_digitsBelow {fuel n : ℕ} (hn : n ≠ 0) (hfuel : n ≤ fuel) :
    (digitsBelow fuel n).head? ≠ some 0 := by
  induction fuel generalizing n with
  | zero => omega
  | succ fuel ih =>
    rw [digitsBelow, if_neg hn]
    by_cases hsmall : n / 10 = 0
    · have hlt : n < 10 := by omega
      have hhigher : digitsBelow fuel (n / 10) = [] := by
        rw [hsmall]
        cases fuel <;> simp [digitsBelow]
      rw [hhigher, List.nil_append, List.head?_cons, ne_eq, Option.some.injEq, Fin.ext_iff]
      simpa [Nat.mod_eq_of_lt hlt] using hn
    · have hne := digitsBelow_ne_nil hsmall (by omega : n / 10 ≤ fuel)
      rw [List.head?_append_of_ne_nil _ hne]
      exact ih hsmall (by omega)

theorem decimalDigits_ne_nil (n : ℕ) : decimalDigits n ≠ [] := by
  unfold decimalDigits
  split_ifs with hn
  · simp
  · exact digitsBelow_ne_nil hn le_rfl

theorem decimalDigits_canonical (n : ℕ) :
    (decimalDigits n).head? = some 0 → decimalDigits n = [0] := by
  unfold decimalDigits
  split_ifs with hn
  · exact fun _ ↦ rfl
  · exact fun hhead ↦ absurd hhead (head?_digitsBelow hn le_rfl)

/-- The token of an integer. -/
def ofInt (z : ℤ) : Number where
  negative := z < 0
  integer := decimalDigits z.natAbs
  fraction := none
  exponent := none
  integer_ne_nil := decimalDigits_ne_nil _
  integer_canonical := decimalDigits_canonical _
  fraction_ne_nil := by simp

theorem digitsValue_append (digits : List (Fin 10)) (digit : Fin 10) :
    digitsValue (digits ++ [digit]) = 10 * digitsValue digits + digit.val := by
  simp [digitsValue]

theorem digitsValue_digitsBelow {fuel n : ℕ} (hfuel : n ≤ fuel) :
    digitsValue (digitsBelow fuel n) = n := by
  induction fuel generalizing n with
  | zero =>
    obtain rfl : n = 0 := by omega
    rfl
  | succ fuel ih =>
    rw [digitsBelow]
    split_ifs with hn
    · exact hn.symm
    · rw [digitsValue_append, ih (by omega), Fin.val_ofNat]
      omega

theorem digitsValue_decimalDigits (n : ℕ) : digitsValue (decimalDigits n) = n := by
  unfold decimalDigits
  split_ifs with hn
  · exact hn.symm
  · exact digitsValue_digitsBelow le_rfl

/-- The token of an integer reads back as that integer. -/
theorem integerValue_ofInt (z : ℤ) : (ofInt z).integerValue = z := by
  simp only [integerValue, ofInt, digitsValue_decimalDigits, decide_eq_true_eq]
  split_ifs with hz <;> omega

theorem asI64_ofInt {z : ℤ} (hlow : -2 ^ 63 ≤ z) (hhigh : z < 2 ^ 63) :
    (ofInt z).asI64 = some z := by
  have hinteger : (ofInt z).IsInteger := ⟨rfl, rfl⟩
  rw [asI64, integerValue_ofInt, if_pos ⟨hinteger, hlow, hhigh⟩]

theorem asU64_ofInt {n : ℕ} (h : n < 2 ^ 64) : (ofInt n).asU64 = some n := by
  have hinteger : (ofInt n).IsInteger := ⟨rfl, rfl⟩
  have hdigits : digitsValue (ofInt n).integer = n := by
    simp [ofInt, digitsValue_decimalDigits]
  have hsign : (ofInt n).negative = false := by simp [ofInt]
  rw [asU64, hdigits, if_pos ⟨hinteger, hsign, h⟩]

end Number

end Rvx.Core
