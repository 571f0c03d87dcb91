import Rvx.Core.Protocol
import Rvx.Lib.OrderedMap

/-!
# Doubles

The `f64` of the source is Lean's `Float`, whose arithmetic is IEEE binary64 also in the kernel.
This module adds the operations of the standard library the tracker uses on it and the reading of
number tokens.
-/

namespace Rvx.Core

namespace Double

def nan : Float := 0.0 / 0.0

def infinity : Float := 1.0 / 0.0

/-- The rational value of a finite double. -/
def toRat (x : Float) : ℚ :=
  let bits := x.toBits.toNat
  let exponent : ℕ := bits / 2 ^ 52 % 2 ^ 11
  let fraction : ℕ := bits % 2 ^ 52
  let magnitude : ℚ :=
    if exponent = 0 then (fraction : ℚ) * 2 ^ (-1074 : ℤ)
    else ((2 ^ 52 + fraction : ℕ) : ℚ) * 2 ^ ((exponent : ℤ) - 1075)
  if bits < 2 ^ 63 then magnitude else -magnitude

def isNegative (x : Float) : Bool := 2 ^ 63 ≤ x.toBits.toNat

/-- The double of a dyadic rational, which is a decimal fraction as well. -/
def ofDyadic (x : ℚ) : Float :=
  let places := Nat.log 2 x.den
  let magnitude := Float.ofScientific (x.num.natAbs * 5 ^ places) true places
  if x < 0 then -magnitude else magnitude

/-- `x % y`: the remainder of the division truncated towards zero, with the sign of `x`. -/
def rem (x y : Float) : Float :=
  if x.isFinite && !y.isNaN && !(y == 0.0) then
    if y.isInf then x
    else
      let magnitude := |toRat x| - |toRat y| * ⌊|toRat x| / |toRat y|⌋
      if isNegative x then -ofDyadic magnitude else ofDyadic magnitude
  else nan

/-- `f64::min`: a NaN gives way to the other argument. -/
def min (x y : Float) : Float := if x.isNaN then y else if y.isNaN then x else if y < x then y else x

/-- `f64::max`. -/
def max (x y : Float) : Float := if x.isNaN then y else if y.isNaN then x else if x < y then y else x

/-- The key of `f64::total_cmp`. -/
def totalKey (x : Float) : ℤ :=
  let bits : ℤ := x.toBits.toNat
  if bits < 2 ^ 63 then bits else 2 ^ 63 - 1 - bits

/-- `x as i64`: truncated towards zero and saturating. -/
def toI64 (x : Float) : ℤ := x.toModel.toInt64.toInt

/-- `iter().sum::<f64>()`. -/
def sum (values : List Float) : Float := values.foldl (· + ·) (-0.0)

end Double

/-- `i64` arithmetic that stops at the bounds. -/
def saturate (z : ℤ) : ℤ := max (-2 ^ 63) (min z (2 ^ 63 - 1))

namespace Number

/-- `token.parse::<f64>()`. -/
def toFloat (number : Number) : Float :=
  let fraction := number.fraction.getD []
  let exponent := number.exponent.elim 0 Exponent.value - fraction.length
  let magnitude :=
    Float.ofScientific (digitsValue (number.integer ++ fraction)) (exponent < 0) exponent.natAbs
  if number.negative then -magnitude else magnitude

end Number

namespace Value

/-- `as_f64`: the double of a number, when it is finite. -/
def asFloat (value : Value) : Option Float :=
  (value.asNumber?.map Number.toFloat).filter Float.isFinite

end Value

end Rvx.Core
