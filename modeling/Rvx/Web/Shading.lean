import Rvx.Core.Tables
import Rvx.Core.NumberText
import Rvx.Web.Numbers
import Rvx.Web.Preferences

/-!
# Shades of a status

A task is shaded by the place of a cell's number between the extrema of the whole dataset.  Numbers
are exact decimal texts, and a bounded window of their digits is kept before they are subtracted.
Logarithmic distances are computed with rounded logarithms, so they are a parameter, and so is the
number a text is converted to.
-/

namespace Rvx.Web.Shading

open Core

/-! ## Exact decimals -/

structure Decimal where
  coefficient : ℤ
  digits : List (Fin 10)
  exponent : ℤ
  magnitude : ℤ
  text : String
deriving DecidableEq

/-- The decimal of a number's parts. -/
def ofNumber (number : Number) (text : String) : Decimal :=
  let fraction := number.fraction.getD []
  let stripped := (number.integer ++ fraction).dropWhile fun digit ↦ digit = 0
  let digits := if stripped = [] then [0] else stripped
  let coefficient : ℤ := digitsValue digits * if number.negative then -1 else 1
  let exponent := if coefficient = 0 then 0
    else number.exponent.elim 0 Exponent.value - fraction.length
  ⟨coefficient, digits, exponent, exponent + digits.length, text⟩

/-- The pattern of a cell's text is the grammar of a number's token. -/
def decimal (cell : Option TableCell) : Except String (Option Decimal) :=
  match cell with
  | none => .ok none
  | some cell =>
    if cell.kind ≠ .number ∨ cell.truncated = true then .ok none
    else
      match if codeUnits cell.text ≤ 1024 then Number.read cell.text.toList else none with
      | none => .error "Shade values must contain valid exact numeric text."
      | some number => .ok (some (ofNumber number cell.text))

def padEnd (length : ℕ) (digits : List (Fin 10)) : List (Fin 10) :=
  digits ++ List.replicate (length - digits.length) 0

/-- Texts of digits compare as lists of digits. -/
def compare (a b : Decimal) : ℤ :=
  if a.coefficient = 0 then
    if b.coefficient = 0 then 0 else if b.coefficient < 0 then 1 else -1
  else if b.coefficient = 0 then
    if a.coefficient < 0 then -1 else 1
  else if (a.coefficient < 0) ≠ (b.coefficient < 0) then
    if a.coefficient < 0 then -1 else 1
  else
    let sign := if a.coefficient < 0 then -1 else 1
    if a.magnitude ≠ b.magnitude then (if a.magnitude < b.magnitude then -1 else 1) * sign
    else
      let length := max a.digits.length b.digits.length
      let left := padEnd length a.digits
      let right := padEnd length b.digits
      (if left < right then -1 else if right < left then 1 else 0) * sign

def windowError : String := "Shade scaling exceeded its bounded precision window."

/-- The digits of a decimal down to a power of ten. -/
def scaled (value : Decimal) (origin : ℤ) : Except String ℤ :=
  if value.coefficient = 0 then .ok 0
  else
    let shift := value.exponent - origin
    if 0 ≤ shift then
      if 4096 < shift then .error windowError else .ok (value.coefficient * 10 ^ shift.toNat)
    else if value.digits.length ≤ -shift then .ok 0
    else .ok (value.coefficient.tdiv (10 ^ (-shift).toNat))

def absolute (value : Decimal) : Decimal :=
  if value.coefficient < 0 then { value with coefficient := -value.coefficient } else value

/-! ## Counts and quotients -/

def isSafeInteger : JsNumber → Bool
  | .finite value => value.den = 1 && |value| ≤ 2 ^ 53 - 1
  | _ => false

/-- `a > b`. -/
def greater (a : JsNumber) : JsNumber → Bool
  | .nan => false
  | .infinite negative => a ≠ .nan && negative && a ≠ .infinite true
  | .finite value => a.exceeds value

/-- `a - b`. -/
def minus (a : JsNumber) : JsNumber → JsNumber
  | .nan => .nan
  | .infinite negative => if a = .nan ∨ a = .infinite negative then .nan else .infinite (!negative)
  | .finite value => a.plus (-value)

/-- `a + b`. -/
def plus (a : JsNumber) : JsNumber → JsNumber
  | .nan => .nan
  | .infinite negative => if a = .nan ∨ a = .infinite (!negative) then .nan else .infinite negative
  | .finite value => a.plus value

/-- `a / b` for a positive finite divisor. -/
def dividedBy (a : JsNumber) (b : ℚ) : JsNumber :=
  match a with
  | .finite value => JsNumber.ofRat (value / b)
  | other => other

/-- `Math.max(0, Math.min(1, a))`. -/
def clamp : JsNumber → JsNumber
  | .nan => .nan
  | .infinite negative => .finite (if negative then 0 else 1)
  | .finite value => .finite (max 0 (min 1 value))

/-! ## The domain -/

structure SnapshotAggregateValue where
  value : TableCell
  minimumMagnitude : Option TableCell
  count : JsNumber

structure SnapshotAggregateSeries where
  measures : String → Option SnapshotAggregateValue

structure SnapshotAggregateGroup where
  series : List SnapshotAggregateSeries

structure SnapshotAggregateResponse where
  groups : List SnapshotAggregateGroup
  matchedRows : JsNumber

inductive Scale where
  | linear | log
deriving DecidableEq

structure Bounds where
  minimum : Decimal
  maximum : Decimal
  origin : ℤ
  low : ℤ
  span : ℤ
deriving DecidableEq

structure ShadeDomain where
  bounds : Option Bounds
  unavailable : JsNumber
  scale : Scale
  anchor : Option Decimal
  logUnit : ℤ
  logSpan : JsNumber
deriving DecidableEq

/-- The extrema of the series so far. -/
structure Extrema where
  minimum : Option Decimal
  maximum : Option Decimal
  anchor : Option Decimal
  numeric : JsNumber

def Extrema.empty : Extrema := ⟨none, none, none, .finite 0⟩

def incompleteError : String := "Task shade range is incomplete."

def invalidError : String := "Task shade range is invalid or truncated."

def magnitudeError : String := "Task logarithmic shade magnitude is incomplete."

/-- The smallest nonzero magnitude, on a logarithmic scale. -/
def addAnchor (scale : Scale) (low : SnapshotAggregateValue) (a b : Decimal)
    (anchor : Option Decimal) : Except String (Option Decimal) :=
  if scale = .log ∧ (a.coefficient ≠ 0 ∨ b.coefficient ≠ 0) then do
    match ← decimal low.minimumMagnitude with
    | none => .error magnitudeError
    | some magnitude =>
      if magnitude.coefficient ≤ 0 ∨
          0 < compare magnitude (absolute a) ∧ 0 < compare magnitude (absolute b) then
        .error magnitudeError
      else if anchor.all fun anchor ↦ compare magnitude anchor < 0 then .ok (some magnitude)
      else .ok anchor
  else .ok anchor

section Domain

variable (number : String → JsNumber)
  (logDistance : Decimal → Decimal → Decimal → ℤ → Except String JsNumber)

/-- The number of counted rows, which is not a number where no count was measured. -/
def counted (series : SnapshotAggregateSeries) : JsNumber :=
  ((series.measures "count").map fun count ↦ number count.value.text).getD .nan

def addRange (scale : Scale) (low high : SnapshotAggregateValue) (extrema : Extrema) :
    Except String Extrema := do
  let a ← decimal (some low.value)
  let b ← decimal (some high.value)
  match a, b with
  | some a, some b =>
    if 0 < compare a b then .error invalidError
    else do
      let anchor ← addAnchor scale low a b extrema.anchor
      return {
        minimum := if extrema.minimum.all fun minimum ↦ compare a minimum < 0 then some a
          else extrema.minimum
        maximum := if extrema.maximum.all fun maximum ↦ 0 < compare b maximum then some b
          else extrema.maximum
        anchor := anchor
        numeric := plus extrema.numeric low.count }
  | _, _ => .error invalidError

def addSeries (scale : Scale) (extrema : Extrema) (series : SnapshotAggregateSeries) :
    Except String Extrema :=
  match series.measures "shade_min", series.measures "shade_max" with
  | some low, some high =>
    if !isSafeInteger low.count || greater (.finite 0) low.count || low.count ≠ high.count ||
        greater low.count (counted number series) then .error incompleteError
    else if low.count = .finite 0 then
      if low.value.kind ≠ .missing ∨ high.value.kind ≠ .missing then
        .error "Empty task shade ranges must remain missing."
      else .ok extrema
    else addRange scale low high extrema
  | _, _ => .error incompleteError

/-- The greater magnitude of the extrema that are not zero. -/
def windowMagnitude (minimum maximum : Decimal) : ℤ :=
  if minimum.coefficient = 0 then maximum.magnitude
  else if maximum.coefficient = 0 then minimum.magnitude
  else if minimum.magnitude > maximum.magnitude then minimum.magnitude
  else maximum.magnitude

def windowOrigin (minimum maximum : Decimal) : ℤ :=
  windowMagnitude minimum maximum - (max minimum.digits.length maximum.digits.length + 6 : ℕ)

def boundedDomain (scale : Scale) (unavailable : JsNumber) (anchor : Option Decimal)
    (minimum maximum : Decimal) : Except String ShadeDomain := do
  let magnitude := windowMagnitude minimum maximum
  let origin := windowOrigin minimum maximum
  let low ← scaled minimum origin
  let high ← scaled maximum origin
  let decades := (anchor.map fun anchor ↦ magnitude - anchor.magnitude).getD 0
  let logUnit := if decades > 1 then decades else 1
  let logSpan ← match anchor with
    | none => .ok (.finite 0)
    | some anchor => logDistance minimum maximum anchor logUnit
  return ⟨some ⟨minimum, maximum, origin, low, high - low⟩, unavailable, scale, anchor, logUnit,
    logSpan⟩

def statusShadeDomain (response : SnapshotAggregateResponse) (scale : Scale) :
    Except String ShadeDomain := do
  let extrema ← (response.groups.flatMap SnapshotAggregateGroup.series).foldlM
    (addSeries number scale) Extrema.empty
  if greater extrema.numeric response.matchedRows then
    .error "Task shade counts exceed the filtered dataset."
  else
    let unavailable := minus response.matchedRows extrema.numeric
    match extrema.minimum, extrema.maximum with
    | some minimum, some maximum =>
      boundedDomain logDistance scale unavailable extrema.anchor minimum maximum
    | _, _ => .ok ⟨none, unavailable, scale, extrema.anchor, 1, .finite 0⟩

/-! ## Shades -/

def linearShade (value : Decimal) (bounds : Bounds) : Except String JsNumber := do
  let place ← scaled value bounds.origin
  let numerator := place - bounds.low
  return clamp (dividedBy (JsNumber.ofRat ((numerator * 1000000).tdiv bounds.span : ℤ)) 1000000)

/-- The quotient of two logarithmic distances; the divisor is positive. -/
def logQuotient (distance span : JsNumber) : JsNumber :=
  match span, distance with
  | .finite span, distance => dividedBy distance span
  | _, .finite _ => .finite 0
  | _, _ => .nan

def coverError : String := "Task shade range does not cover the record page."

def logCoverError : String :=
  "Task logarithmic shade magnitude does not cover the record page."

def statusShade (cell : Option TableCell) (domain : ShadeDomain) :
    Except String (Option JsNumber) := do
  match ← decimal cell with
  | none => .ok none
  | some value =>
    match domain.bounds with
    | none => .error coverError
    | some bounds =>
      if compare value bounds.minimum < 0 ∨ 0 < compare value bounds.maximum then .error coverError
      else if compare bounds.minimum bounds.maximum = 0 then .ok (some (.finite (1 / 2)))
      else if bounds.span ≤ 0 then .error "Task shade range lost numeric precision."
      else if domain.scale = .log then
        match domain.anchor with
        | none => .error logCoverError
        | some anchor =>
          if value.coefficient ≠ 0 ∧ compare (absolute value) anchor < 0 then .error logCoverError
          -- below this span, the linear shade differs by less than what is rendered
          else if domain.logSpan.atLeast (Binary64.nearest (1 / 10 ^ 8)) then do
            let distance ← logDistance bounds.minimum value anchor domain.logUnit
            return some (clamp (logQuotient distance domain.logSpan))
          else some <$> linearShade value bounds
      else some <$> linearShade value bounds

end Domain

end Rvx.Web.Shading
