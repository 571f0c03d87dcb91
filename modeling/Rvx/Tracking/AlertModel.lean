import Rvx.Core.Double
import Rvx.Snapshots.Producer

/-!
# Alert rules and events

The values the alert engine works on.  The texts in which the libraries write doubles (the JSON
token, `Display`, `Debug` and the two precisions) are a parameter: no decision of the tracker reads
them.
-/

namespace Rvx.Tracking

open Core

inductive TrackerError where
  | invalidInput (reason : String)
  /-- `InvalidInput("invalid metric name ...")` with the name in debug format. -/
  | invalidMetricName (name : String)
  /-- `InvalidInput("duplicate alert rule name ...")` with the name in debug format. -/
  | duplicateRuleName (name : String)
  /-- `InvalidInput("unknown alert function ...")` with the name in debug format. -/
  | unknownFunction (name : String)
  /-- `InvalidInput("unknown alert duration unit ...")` with the unit in debug format. -/
  | unknownUnit (unit : String)
  /-- `InvalidInput("unexpected alert expression character ...")` with it in debug format. -/
  | unexpectedCharacter (character : Char)
  /-- The parser's "unexpected alert token" and "expected ..., got ..." in debug format. -/
  | unexpectedToken
  /-- `InvalidInput` with the text of a protocol error. -/
  | input (error : ProtocolError)
  | finished
  | producer (error : Snapshots.ProducerError)
deriving DecidableEq

/-- The texts the libraries write for doubles. -/
structure FloatText where
  token : Float → Number
  display : Float → String
  debug : Float → String
  fixed : (precision : ℕ) → Float → String
  scientific : (precision : ℕ) → Float → String

inductive AlertLevel where
  | info
  | warning
  | error
  | critical
deriving DecidableEq

def AlertLevel.text : AlertLevel → String
  | .info => "info"
  | .warning => "warning"
  | .error => "error"
  | .critical => "critical"

inductive AlertMode where
  | edge
  | level
deriving DecidableEq

inductive RuleAxis where
  | wallTime
  | step
deriving DecidableEq

structure AlertRule where
  name : String
  condition : String
  level : AlertLevel
  message : String
  mode : AlertMode
  forSteps : ℕ
  forDurationMs : ℕ
  partialWindow : Bool
  axis : RuleAxis
  cooldownSeconds : ℕ
  maxFires : Option UInt64
  notifyRecovery : Bool
  tags : List String
  channels : List String
deriving DecidableEq

structure AlertEvent where
  rule : String
  level : AlertLevel
  message : String
  step : ℤ
  observedAtNs : ℤ
  recovered : Bool
  tags : List String
  channels : List String
deriving DecidableEq

/-! ## Metric values -/

def NONFINITE_KEY : String := "$rvx.nonfinite"

/-- A finite number, or the object that stands for a double JSON cannot write. -/
def numericValue (value : Value) : Option Float :=
  match value.asFloat with
  | some number => some number
  | none =>
    match (value.get? NONFINITE_KEY).bind Value.asText with
    | some "nan" => some Double.nan
    | some "inf" => some Double.infinity
    | some "-inf" => some (-Double.infinity)
    | _ => none

def isNonfinite (value : Value) : Bool := (numericValue value).any fun number ↦ !number.isFinite

abbrev Metrics : Type := OrderedMap String Json

end Rvx.Tracking
