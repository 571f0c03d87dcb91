import Rvx.Web.IntegerText
import Rvx.Web.Preferences

/-!
# Time bounds

The text of a chart's bound is read as a duration, a local date or a coordinate, and a bound is
written back as an editable text.  The text of a number that is no integer below 10 ^ 21, the lower
case of a text and the local clock are parameters.
-/

namespace Rvx.Web

open Core
open Binary64 (nearest)

inductive BoundResult where
  | ok (value : Option ℚ)
  | error (error : String)
deriving DecidableEq

inductive TimeUnit where
  | d | h | m | s | ms | us | ns
deriving DecidableEq

def TimeUnit.units : TimeUnit → ℕ
  | d => 86400000000000
  | h => 3600000000000
  | m => 60000000000
  | s => 1000000000
  | ms => 1000000
  | us => 1000
  | ns => 1

def TimeUnit.text : TimeUnit → List Char
  | d => ['d']
  | h => ['h']
  | m => ['m']
  | s => ['s']
  | ms => ['m', 's']
  | us => ['u', 's']
  | ns => ['n', 's']

/-- The characters a duration is made of. -/
def isDurationChar (c : Char) : Bool :=
  isSpace c || c.isDigit || c ∈ ['.', 'd', 'h', 'm', 'n', 's', 'u']

/-- `toLowerCase`: it changes ASCII letters as usual, and outside ASCII no character becomes a digit,
a unit, a point or white space that was not one before. -/
structure LowerCase where
  toLowerCase : List Char → List Char
  ascii {text : List Char} (h : ∀ c ∈ text, c.toNat < 128) : toLowerCase text = text.map Char.toLower
  duration {text : List Char} (h : ∀ c ∈ toLowerCase text, isDurationChar c = true) :
    toLowerCase text = text.map Char.toLower

/-- The local fields of a `Date`. -/
structure DateFields where
  fullYear : ℤ
  month : ℕ
  date : ℕ
  hours : ℕ
  minutes : ℕ
  seconds : ℕ

structure LocalClock where
  /-- `new Date(text).getTime()`, or nothing where it is not finite. -/
  getTime : List Char → Option ℤ
  fields : ℤ → DateFields

def timeRangeError : String := "This bound is outside the supported range."

def timePrecisionError : String := "This bound is too precise for a chart. Use a rounder value."

def durationError : String := "Use a duration such as 30s, 5m or 1h 15m."

/-! ## Durations -/

/-- The groups of a match of `/(\d+(?:\.\d+)?)\s*(ns|us|ms|s|m|h|d)/`. -/
structure DurationMatch where
  whole : List (Fin 10)
  fraction : List (Fin 10)
  unit : TimeUnit
deriving DecidableEq

/-- The digits after a point, if there are any. -/
def takeFraction : List Char → List (Fin 10) × List Char
  | '.' :: rest => if (takeDigits rest).1 = [] then ([], '.' :: rest) else takeDigits rest
  | text => ([], text)

def matchUnit : List Char → Option (TimeUnit × List Char)
  | 'n' :: 's' :: rest => some (.ns, rest)
  | 'u' :: 's' :: rest => some (.us, rest)
  | 'm' :: 's' :: rest => some (.ms, rest)
  | 's' :: rest => some (.s, rest)
  | 'm' :: rest => some (.m, rest)
  | 'h' :: rest => some (.h, rest)
  | 'd' :: rest => some (.d, rest)
  | _ => none

/-- A match at the beginning of the text, and what follows it.  What a shorter numeral leaves begins
with a digit or a point, which is neither white space nor a unit, so no other numeral is tried. -/
def matchAt (text : List Char) : Option (DurationMatch × List Char) :=
  let whole := takeDigits text
  let fraction := takeFraction whole.2
  if whole.1 = [] then none
  else (matchUnit (fraction.2.dropWhile isSpace)).map fun unit ↦
    (⟨whole.1, fraction.1, unit.1⟩, unit.2)

/-- The first match, with the text before it and the text after it. -/
def nextMatch : List Char → Option (List Char × DurationMatch × List Char)
  | [] => none
  | c :: rest =>
    match matchAt (c :: rest) with
    | some found => some ([], found)
    | none => (nextMatch rest).map fun found ↦ (c :: found.1, found.2)

/-- `/^\d+(?:\.\d+)?$/`. -/
def isBareNumber (text : List Char) : Bool :=
  let whole := takeDigits text
  whole.1 ≠ [] && (takeFraction whole.2).2 = []

/-- The digits of a match, counted in the unit. -/
def DurationMatch.scaled (found : DurationMatch) : ℕ :=
  digitsValue (found.whole ++ found.fraction) * found.unit.units

def DurationMatch.divisor (found : DurationMatch) : ℕ := 10 ^ found.fraction.length

/-- The nanoseconds of all matches.  A match is not empty, so as many steps as the text has
characters are enough; `seen` says that there was a match. -/
def sumMatches : (steps : ℕ) → (total : ℕ) → (seen : Bool) → List Char → Except String ℕ
  | 0, total, seen, duration =>
    if seen && duration.all isSpace then .ok total else .error durationError
  | steps + 1, total, seen, duration =>
    match nextMatch duration with
    | none => if seen && duration.all isSpace then .ok total else .error durationError
    | some (skipped, found, rest) =>
      if skipped.any fun c ↦ !isSpace c then .error durationError
      else if 18 < found.fraction.length then .error "Use at most 18 decimal places."
      else if found.scaled % found.divisor ≠ 0 then
        .error "Duration precision cannot be smaller than a nanosecond."
      else sumMatches steps (total + found.scaled / found.divisor) true rest

/-! ## Reading a bound -/

/-- `/^\d{4}-\d{2}-\d{2}T\d{2}:\d{2}(?::\d{2})?$/`. -/
def isLocalDateTime (text : List Char) : Bool :=
  let shape := "0000-00-00T00:00:00".toList
  (text.length = 16 || text.length = 19) && (text.zip shape).all fun pair ↦
    if pair.2 = '0' then pair.1.isDigit else pair.1 = pair.2

/-- `/^-?\d+$/`. -/
def isWholeNumber : List Char → Bool
  | '-' :: digits => digits ≠ [] && digits.all Char.isDigit
  | digits => digits ≠ [] && digits.all Char.isDigit

/-- `BigInt(text)` of a whole number. -/
def bigint : List Char → ℤ
  | '-' :: digits => -digitsValue (takeDigits digits).1
  | digits => digitsValue (takeDigits digits).1

/-- `padStart(width, "0")`. -/
def padStart (width : ℕ) (text : List Char) : List Char :=
  List.replicate (width - text.length) '0' ++ text

def localDateTime (date : DateFields) : List Char :=
  let pad (value : ℕ) := padStart 2 (bigintText value)
  padStart 4 (bigintText date.fullYear) ++ '-' :: pad (date.month + 1) ++ '-' :: pad date.date ++
    'T' :: pad date.hours ++ ':' :: pad date.minutes ++ ':' :: pad date.seconds

section Bounds

variable (other : ℚ → List Char) (lower : LowerCase) (clock : LocalClock)

def coordinate (value : ℤ) : BoundResult :=
  if value < -2 ^ 63 ∨ 2 ^ 63 - 1 < value then .error timeRangeError
  else
    let number := nearest value
    if numberText other number ≠ bigintText value then .error timePrecisionError
    else .ok (some number)

def parseDuration (text : List Char) : BoundResult :=
  let negative := text.head? = some '-'
  let value := lower.toLowerCase (if negative then text.tail else text)
  let duration := if isBareNumber value then value ++ ['s'] else value
  match sumMatches duration.length 0 false duration with
  | .error error => .error error
  | .ok total => coordinate other (total * if negative then -1 else 1)

def parseTimeBound (input : String) (axis : String) : BoundResult :=
  let text := (trimmed input).toList
  if text = [] then .ok none
  else if codeUnits (trimmed input) > 128 then .error "This bound is too long."
  else if axis = "wall_time" then
    if !isLocalDateTime text then
      .error "Choose a local date and time, to the nearest second."
    else
      let date := clock.getTime text
      let whole := if text.length = 16 then text ++ [':', '0', '0'] else text
      match date with
      | none => .error "This local date or time does not exist."
      | some time =>
        if localDateTime (clock.fields time) ≠ whole then
          .error "This local date or time does not exist."
        else coordinate other (time * 1000000)
  else if axis ≠ "elapsed" then
    if !isWholeNumber text then .error "Enter a whole-number coordinate, or leave it blank."
    else coordinate other (bigint text)
  else parseDuration other lower text

/-! ## Writing a bound -/

/-- The days, hours and minutes that are not zero, and what remains. -/
def wholeUnits : List TimeUnit → ℕ → List (List Char) × ℕ
  | [], remaining => ([], remaining)
  | unit :: units, remaining =>
    let amount := remaining / unit.units
    let later := wholeUnits units (remaining % unit.units)
    (if amount = 0 then later.1 else (bigintText amount ++ unit.text) :: later.1, later.2)

/-- `replace(/0+$/, "")`. -/
def stripTrailingZeros (text : List Char) : List Char :=
  (text.reverse.dropWhile (· = '0')).reverse

def secondsText (remaining : ℕ) : List Char :=
  let fraction := stripTrailingZeros (padStart 9 (bigintText (remaining % TimeUnit.s.units : ℕ)))
  bigintText (remaining / TimeUnit.s.units : ℕ) ++
    (if fraction = [] then [] else '.' :: fraction) ++ TimeUnit.s.text

def formatDuration (value : ℤ) : List Char :=
  let parts := wholeUnits [.d, .h, .m] value.natAbs
  let all := if parts.2 ≠ 0 ∨ parts.1 = [] then parts.1 ++ [secondsText parts.2] else parts.1
  (if value < 0 then ['-'] else []) ++ [' '].intercalate all

/-- `String(value)`. -/
def JsNumber.text : JsNumber → List Char
  | .nan => "NaN".toList
  | .infinite negative => (if negative then "-Infinity" else "Infinity").toList
  | .finite value => numberText other value

def formatTimeBound (value : Option JsNumber) (axis : String) : String :=
  match value with
  | none => ""
  | some (.finite value) =>
    String.ofList <|
      if value.den ≠ 1 ∨ |value| > 2 ^ 63 then numberText other value
      else if axis = "wall_time" then
        -- a `Date` drops the fraction of its milliseconds
        let time := nearest (value / 1000000)
        localDateTime (clock.fields (time.num.tdiv time.den))
      else if axis ≠ "elapsed" then numberText other value
      else formatDuration (bigint (numberText other value))
  | some value => String.ofList (value.text other)

end Bounds

end Rvx.Web
