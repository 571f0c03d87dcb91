import Rvx.Core.NumberText
import Rvx.Web.Numbers

/-!
# Decimal display

Exact decimal text is rounded for display only.  Its digits are shifted, cut, incremented and padded
as text, and a text whose expansion would be too long is shown as it is.
-/

namespace Rvx.Web

open Core

inductive ScriptError where
  | rangeError (message : String)
  | typeError (message : String)
deriving DecidableEq

/-- The groups of `/^(-?)(\d+)(?:\.(\d+))?(?:[eE]([+-]?\d+))?$/`. -/
structure DecimalText where
  negative : Bool
  whole : List (Fin 10)
  fraction : List (Fin 10)
  exponent : Option Exponent
  whole_ne_nil : whole ≠ []

namespace DecimalText

instance : DecidableEq DecimalText := fun a b ↦
  decidable_of_iff (a.negative = b.negative ∧ a.whole = b.whole ∧ a.fraction = b.fraction ∧
    a.exponent = b.exponent) (by cases a; cases b; simp)

/-- The text after its sign. -/
def matchUnsigned (negative : Bool) (text : List Char) : Option DecimalText :=
  let whole := takeDigits text
  let fraction := Number.readFraction whole.2
  (Number.readExponent fraction.2).bind fun exponent ↦
    if h : whole.1 ≠ [] ∧ fraction.1 ≠ some [] then
      some ⟨negative, whole.1, fraction.1.getD [], exponent, h.1⟩
    else none

def matchText : List Char → Option DecimalText
  | '-' :: rest => matchUnsigned true rest
  | text => matchUnsigned false text

def exponentValue (number : DecimalText) : ℤ := number.exponent.elim 0 Exponent.value

/-- The number that is written. -/
def toRat (number : DecimalText) : ℚ :=
  let magnitude : ℚ := digitsValue (number.whole ++ number.fraction) *
    10 ^ (number.exponentValue - number.fraction.length)
  if number.negative then -magnitude else magnitude

end DecimalText

/-- `replace(/^0+(?=\d)/, "")`. -/
def stripZeros : List (Fin 10) → List (Fin 10)
  | digit :: next :: rest =>
    if digit = 0 then stripZeros (next :: rest) else digit :: next :: rest
  | digits => digits

/-- The digits of the rounded number, or nothing where too many would be needed. -/
def roundDigits (digits : List (Fin 10)) (shift : JsNumber) : Option (List (Fin 10)) :=
  if shift.atLeast 0 then
    -- extreme exponents stay bounded
    if (shift.plus digits.length).exceeds 4096 then none
    else some (digits ++ List.replicate shift.toNat 0)
  else
    let keep := shift.plus digits.length
    let rounded := if keep.exceeds 0 then digits.take keep.toNat else [0]
    if keep.atLeast 0 && digits[keep.toNat]?.any (5 ≤ ·) then
      some (Number.decimalDigits (digitsValue rounded + 1))
    else some rounded

/-- The digits with their sign and point. -/
def placePoint (negative : Bool) (places : ℕ) (rounded : List (Fin 10)) : List Char :=
  let padded := List.replicate (places + 1 - rounded.length) 0 ++ rounded
  let sign := if negative && rounded.any (· ≠ 0) then ['-'] else []
  let whole := padded.length - places
  sign ++ if places = 0 then padded.map digitChar
    else (padded.take whole).map digitChar ++ '.' :: (padded.drop whole).map digitChar

/-- The shown text, for some places from 0 to 20. -/
def displayPlaces (text : String) (places : ℕ) : Except ScriptError String :=
  match DecimalText.matchText text.toList with
  | none => .error (.typeError "Expected exact decimal number text.")
  | some number =>
    let digits := stripZeros (number.whole ++ number.fraction)
    let exponent := JsNumber.ofRat number.exponentValue
    let shift := (exponent.plus (-number.fraction.length)).plus places
    match roundDigits digits shift with
    | none => .ok text
    | some rounded => .ok (String.ofList (placePoint number.negative places rounded))

def decimalDisplay (text : String) (places : Option JsNumber) : Except ScriptError String :=
  match places with
  | none => .ok text
  | some (.finite places) =>
    if places.den ≠ 1 ∨ places < 0 ∨ places > 20 then
      .error (.rangeError "Decimal places must be from 0 to 20.")
    else displayPlaces text places.num.toNat
  | some _ => .error (.rangeError "Decimal places must be from 0 to 20.")

/-! ## What is shown -/

/-- Half away from zero, without the sign. -/
def roundedMagnitude (value : ℚ) (places : ℕ) : ℕ := ⌊|value| * 10 ^ places + 1 / 2⌋₊

/-- The numeral of the rounded value: a minus sign for a negative one, no superfluous leading zeros,
and as many digits behind the point as there are places. -/
def IsNumeral (value : ℚ) (places : ℕ) (shown : String) : Prop :=
  ∃ whole fraction : List (Fin 10),
    whole ≠ [] ∧ (whole.head? = some 0 → whole = [0]) ∧ fraction.length = places ∧
      digitsValue (whole ++ fraction) = roundedMagnitude value places ∧
      shown.toList = (if value < 0 ∧ roundedMagnitude value places ≠ 0 then ['-'] else []) ++
        whole.map digitChar ++ if places = 0 then [] else '.' :: fraction.map digitChar

/-- The number of digits of the fixed-point expansion up to the places. -/
def expansionLength (value : ℚ) (places : ℕ) : ℕ :=
  (Number.decimalDigits ⌊|value| * 10 ^ places⌋₊).length

/-- The text unchanged when its expansion is too long, or else the numeral. -/
def Displays (text : String) (value : ℚ) (places : ℕ) (shown : String) : Prop :=
  shown = text ∧ 4096 < expansionLength value places ∨ IsNumeral value places shown

example : decimalDisplay "-1.005" (some (.finite 2)) = .ok "-1.01" := by decide +kernel

example : decimalDisplay "9.999" (some (.finite 2)) = .ok "10.00" := by decide +kernel

end Rvx.Web
