import Rvx.Lib.Check
import Rvx.Lib.StableSort
import Rvx.Tracking.AlertModel

/-!
# Alert expressions

The expression tree of a rule, its validation and its evaluation in three-valued logic.  Evaluation
has no effects, so the arguments of a call are evaluated before the call looks at them.
-/

namespace Rvx.Tracking

open Core Check

inductive Window where
  | points (points : ℕ)
  | duration (duration : ℤ)
deriving DecidableEq

inductive UnaryOp where
  | neg
  | pos
  | not
deriving DecidableEq

inductive BinaryOp where
  | add
  | sub
  | mul
  | div
  | mod
  | eq
  | ne
  | lt
  | le
  | gt
  | ge
  | and
  | or
deriving DecidableEq

inductive Expr where
  | number (value : Float)
  | duration (value : ℤ)
  | metric (name : String) (window : Option Window)
  | call (name : String) (arguments : List Expr)
  | unary (operation : UnaryOp) (value : Expr)
  | binary (operation : BinaryOp) (left right : Expr)

/-! ## Validation -/

namespace Expr

def isPlainMetric : Expr → Bool
  | .metric _ none => true
  | _ => false

def isWindowedMetric : Expr → Bool
  | .metric _ (some _) => true
  | _ => false

/-- The argument `no_data` takes. -/
def isPositiveDuration : Expr → Bool
  | .duration value => 0 < value
  | .number value => 0.0 < value && value.isFinite
  | _ => false

/-- The number of arguments a function takes, unless it is unknown. -/
def validArity (name : String) (arity : ℕ) : Option Bool :=
  if name ∈ ["step", "elapsed"] then some (arity = 0)
  else if name ∈ ["ema", "stalled"] then some (1 ≤ arity ∧ arity ≤ 2)
  else if name ∈ ["mean", "std", "var", "median", "sum", "min", "max", "first", "last", "count",
      "diff", "rate", "pct_change", "slope", "zscore", "increasing", "decreasing", "isnan",
      "isinf", "has", "age", "no_data"] then some (arity = 1)
  else none

/-- The checks of a call on its own name and arguments. -/
def validateCall (capacity : ℕ) (name : String) (arguments : List Expr) :
    Except TrackerError Unit := do
  match validArity name arguments.length with
  | none => throw (.unknownFunction name)
  | some valid => reject (valid = false) (.invalidInput ("invalid arity for " ++ name))
  reject ((name = "has" ∨ name = "age") ∧ ¬ arguments.head?.any isPlainMetric)
    (.invalidInput (name ++ " requires a metric name"))
  reject ((name = "rate" ∨ name = "slope") ∧ ¬ arguments.head?.any isWindowedMetric)
    (.invalidInput (name ++ " requires a metric window"))
  reject (name = "no_data" ∧ ¬ arguments.head?.any isPositiveDuration)
    (.invalidInput "no_data requires a positive duration")
  reject (name = "diff" ∧ capacity < 2 ∧ arguments.head?.any isPlainMetric)
    (.invalidInput "diff(metric) requires alert_window >= 2")

mutual

def validate (capacity : ℕ) : Expr → Except TrackerError Unit
  | .number _ => .ok ()
  | .duration _ => .ok ()
  | .metric name window => do
    reject (name = "" ∨ name.utf8ByteSize > 4096) (.invalidInput "invalid alert metric name")
    match window with
    | some (.points points) =>
      reject (points > capacity) (.invalidInput "rule window exceeds alert_window")
    | _ => .ok ()
  | .unary _ value => validate capacity value
  | .binary _ left right => do
    validate capacity left
    validate capacity right
  | .call name arguments => do
    validateCall capacity name arguments
    validateAll capacity arguments

def validateAll (capacity : ℕ) : List Expr → Except TrackerError Unit
  | [] => .ok ()
  | argument :: rest => do
    validate capacity argument
    validateAll capacity rest

end

mutual

def touchesTime : Expr → Bool
  | .call name arguments => name ∈ ["no_data", "age", "elapsed"] || anyTouchesTime arguments
  | .unary _ value => touchesTime value
  | .binary _ left right => touchesTime left || touchesTime right
  | .number _ | .duration _ | .metric _ _ => false

def anyTouchesTime : List Expr → Bool
  | [] => false
  | argument :: rest => touchesTime argument || anyTouchesTime rest

end

end Expr

/-! ## Evaluation -/

structure Sample where
  observedAtNs : ℤ
  step : ℤ
  value : Float
deriving DecidableEq

inductive Tri where
  | no
  | yes
  | unknown
deriving DecidableEq

namespace Tri

def ofBool (value : Bool) : Tri := if value then yes else no

def not : Tri → Tri
  | no => yes
  | yes => no
  | unknown => unknown

def and : Tri → Tri → Tri
  | no, _ | _, no => no
  | yes, yes => yes
  | _, _ => unknown

def or : Tri → Tri → Tri
  | yes, _ | _, yes => yes
  | no, no => no
  | _, _ => unknown

end Tri

inductive Evaluated where
  | number (value : Float)
  | bool (value : Tri)
  | duration (value : ℤ)
  | series (samples : List Sample)
  | unknown
deriving DecidableEq

namespace Evaluated

def truth : Evaluated → Tri
  | .bool value => value
  | .number value =>
    if value.isFinite then if value == 0.0 then .no else .yes else .unknown
  | _ => .unknown

/-- A duration counts in seconds. -/
def asNumber : Evaluated → Option Float
  | .number value => some value
  | .duration value => some (Float.ofInt value / 1000000000.0)
  | _ => none

def values : Evaluated → List Float
  | .number value => [value]
  | .series samples => samples.map Sample.value
  | _ => []

/-- `Number` when the double is finite. -/
def ofFinite (value : Float) : Evaluated := if value.isFinite then .number value else .unknown

end Evaluated

structure EvalContext where
  step : ℤ
  observedAtNs : ℤ
  startedAtNs : ℤ
  lastObservedAtNs : Option ℤ
  metrics : Metrics
  series : OrderedMap String (List Sample)
  pending : OrderedMap String Sample
  partialWindow : Bool
  axis : RuleAxis
  tick : Bool

/-- Seconds between two times, as a double. -/
def secondsBetween (later earlier : ℤ) : Float :=
  Float.ofInt (saturate (later - earlier)) / 1000000000.0

namespace EvalContext

/-- The retained samples of a metric followed by the pending one. -/
def samples (context : EvalContext) (name : String) : List Sample :=
  (context.series.get? name).getD [] ++ (context.pending.get? name).toList

/-- The value a metric has without a window. -/
def current (context : EvalContext) (name : String) : Option Float :=
  match context.pending.get? name with
  | some sample => some sample.value
  | none => (context.metrics.get? name).bind fun value ↦ numericValue value.value

def metricValue (context : EvalContext) (name : String) : Option Window → Evaluated
  | none =>
    match context.current name with
    | some value => .number value
    | none =>
      match ((context.series.get? name).bind List.getLast?).filter fun _ ↦ context.tick with
      | some sample => .number sample.value
      | none => .unknown
  | some (.points points) =>
    let values := context.samples name
    if !context.partialWindow && values.length < points then .unknown
    else .series (values.drop (values.length - points))
  | some (.duration duration) =>
    let values := context.samples name
    let start := saturate (context.observedAtNs - duration)
    if !context.partialWindow && !values.head?.any (fun sample ↦ sample.observedAtNs ≤ start) then
      .unknown
    else .series (values.filter fun sample ↦ sample.observedAtNs ≥ start)

end EvalContext

/-- Neighbouring elements. -/
def neighbours {α : Type} (list : List α) : List (α × α) := list.zip list.tail

def trend (samples : List Sample) (axis : RuleAxis) (rate : Bool) : Evaluated :=
  let coordinate (sample : Sample) : ℤ :=
    match axis with
    | .wallTime => sample.observedAtNs
    | .step => sample.step
  match samples.head?, samples.getLast? with
  | some first, some last =>
    if samples.length < 2 ||
        (neighbours samples).any (fun pair ↦ coordinate pair.2 ≤ coordinate pair.1) then .unknown
    else
      let scale : Float := if axis = .wallTime then 1000000000.0 else 1.0
      let place (sample : Sample) : Float :=
        Float.ofInt (coordinate sample - coordinate first) / scale
      let xs := samples.map place
      if rate then .ofFinite ((last.value - first.value) / place last)
      else
        let count := Float.ofNat xs.length
        let meanX := Double.sum xs / count
        let meanY := Double.sum (samples.map Sample.value) / count
        let covariance := Double.sum
          ((xs.zip samples).map fun pair ↦ (pair.1 - meanX) * (pair.2.value - meanY))
        let variance := Double.sum (xs.map fun x ↦ (x - meanX) * (x - meanX))
        .ofFinite (covariance / variance)
  | _, _ => .unknown

def evaluateBinary (operation : BinaryOp) (left right : Evaluated) : Evaluated :=
  match operation with
  | .and => .bool (left.truth.and right.truth)
  | .or => .bool (left.truth.or right.truth)
  | .add | .sub | .mul | .div | .mod =>
    match left.asNumber, right.asNumber with
    | some left, some right =>
      match operation with
      | .add => .ofFinite (left + right)
      | .sub => .ofFinite (left - right)
      | .mul => .ofFinite (left * right)
      | .div => if right == 0.0 then .unknown else .ofFinite (left / right)
      | _ => if right == 0.0 then .unknown else .ofFinite (Double.rem left right)
    | _, _ => .unknown
  | .eq | .ne | .lt | .le | .gt | .ge =>
    match left.asNumber, right.asNumber with
    | some left, some right =>
      if !left.isFinite || !right.isFinite then .bool .unknown
      else
        match operation with
        | .eq => .bool (.ofBool (left == right))
        | .ne => .bool (.ofBool (left != right))
        | .lt => .bool (.ofBool (left < right))
        | .le => .bool (.ofBool (left ≤ right))
        | .gt => .bool (.ofBool (left > right))
        | _ => .bool (.ofBool (left ≥ right))
    | _, _ => .bool .unknown

/-- `to_ascii_lowercase`. -/
def asciiLower (text : String) : String := String.ofList (text.toList.map Char.toLower)

/-- The first argument of a call; `diff` of a plain metric compares its last two values. -/
def firstArgument (context : EvalContext) (name : String) (arguments : List Expr)
    (values : List Evaluated) : Evaluated :=
  match arguments.head? with
  | some (.metric metric none) =>
    if name = "diff" then context.metricValue metric (some (.points 2))
    else values.head?.getD .unknown
  | _ => values.head?.getD .unknown

/-- The duration in nanoseconds an argument of `no_data` stands for. -/
def asDuration : Evaluated → Option ℤ
  | .duration value => some value
  | .number value =>
    if value.isFinite then some (Double.toI64 (value * 1000000000.0)) else none
  | _ => none

/-- The mean and the population variance of finite values. -/
def variance (finite : List Float) : Float × Float :=
  let count := Float.ofNat finite.length
  let mean := Double.sum finite / count
  (mean, Double.sum (finite.map fun value ↦ (value - mean) * (value - mean)) / count)

def median (finite : List Float) : Float :=
  let values := StableSort.sortOn Double.totalKey finite
  let middle := values.length / 2
  if values.length % 2 = 0 then (values.getD (middle - 1) 0.0 + values.getD middle 0.0) / 2.0
  else values.getD middle 0.0

/-- The functions of the values of their first argument. -/
def evaluateAggregate (context : EvalContext) (name : String) (first : Evaluated)
    (parameter : Option Evaluated) : Evaluated :=
  let values := first.values
  let finite := values.filter Float.isFinite
  let low := finite.foldl Double.min Double.infinity
  let high := finite.foldl Double.max (-Double.infinity)
  match name, values.head?, values.getLast? with
  | "count", _, _ => .number (Float.ofNat values.length)
  | "sum", some _, _ => .number (Double.sum finite)
  | "mean", some _, _ => .number (Double.sum finite / Float.ofNat finite.length)
  | "median", some _, _ => .number (median finite)
  | "min", some _, _ => .number low
  | "max", some _, _ => .number high
  | "first", some start, _ => .number start
  | "last", _, some last => .number last
  | "diff", some start, some last => if values.length ≥ 2 then .number (last - start) else .unknown
  | "pct_change", some start, some last =>
    if values.length ≥ 2 && start != 0.0 then .number ((last - start) / start) else .unknown
  | "rate", _, _ | "slope", _, _ =>
    match first with
    | .series samples =>
      if values.length ≥ 2 then trend samples context.axis (name = "rate") else .unknown
    | _ => .unknown
  | "var", _, _ => if finite.length ≥ 2 then .number (variance finite).2 else .unknown
  | "std", _, _ => if finite.length ≥ 2 then .number (variance finite).2.sqrt else .unknown
  | "zscore", _, some last =>
    if finite.length ≥ 2 then
      let (mean, variance) := variance finite
      if variance.sqrt == 0.0 then .unknown else .number ((last - mean) / variance.sqrt)
    else .unknown
  | "ema", some start, _ =>
    let alpha := (parameter.bind Evaluated.asNumber).getD 0.2
    if 0.0 ≤ alpha ∧ alpha ≤ 1.0 then
      .number (finite.tail.foldl (fun ema value ↦ alpha * value + (1.0 - alpha) * ema) start)
    else .unknown
  | "increasing", _, _ =>
    if finite.length ≥ 2 then
      .bool (.ofBool ((neighbours finite).all fun pair ↦ pair.2 > pair.1))
    else .unknown
  | "decreasing", _, _ =>
    if finite.length ≥ 2 then
      .bool (.ofBool ((neighbours finite).all fun pair ↦ pair.2 < pair.1))
    else .unknown
  | "stalled", _, _ =>
    if finite.length ≥ 2 then
      .bool (.ofBool (high - low ≤ (parameter.bind Evaluated.asNumber).getD 0.0))
    else .unknown
  | _, _, _ => .unknown

def evaluateCall (context : EvalContext) (name : String) (arguments : List Expr)
    (values : List Evaluated) : Evaluated :=
  let name := asciiLower name
  let first := firstArgument context name arguments values
  if name = "step" then .number (Float.ofInt context.step)
  else if name = "elapsed" then
    .number (secondsBetween context.observedAtNs context.startedAtNs)
  else if name = "no_data" then
    .bool (.ofBool ((values.head?.bind asDuration).any fun duration ↦
      saturate (context.lastObservedAtNs.getD context.startedAtNs + duration) ≤
        context.observedAtNs))
  else if name = "isnan" then
    .bool (first.asNumber.elim .unknown fun value ↦ .ofBool value.isNaN)
  else if name = "isinf" then
    .bool (first.asNumber.elim .unknown fun value ↦ .ofBool value.isInf)
  else if name = "has" then
    match arguments.head? with
    | some (.metric metric _) =>
      .bool (.ofBool (metric ∈ context.pending || metric ∈ context.metrics ||
        context.tick && metric ∈ context.series))
    | _ => .bool (.ofBool (first != .unknown))
  else if name = "age" then
    match arguments.head? with
    | some (.metric metric _) =>
      match (context.samples metric).getLast? with
      | some sample => .number (secondsBetween context.observedAtNs sample.observedAtNs)
      | none => .unknown
    | _ => .unknown
  else if first = .unknown then .unknown
  else if name ≠ "count" && first.values.any (fun value ↦ !value.isFinite) then .unknown
  else evaluateAggregate context name first values[1]?

mutual

def evaluate (context : EvalContext) : Expr → Evaluated
  | .number value => .number value
  | .duration value => .duration value
  | .metric name window => context.metricValue name window
  | .call name arguments => evaluateCall context name arguments (evaluateAll context arguments)
  | .unary .neg value =>
    ((evaluate context value).asNumber.map fun value ↦ Evaluated.number (-value)).getD .unknown
  | .unary .pos value => ((evaluate context value).asNumber.map Evaluated.number).getD .unknown
  | .unary .not value => .bool (evaluate context value).truth.not
  | .binary operation left right =>
    evaluateBinary operation (evaluate context left) (evaluate context right)

def evaluateAll (context : EvalContext) : List Expr → List Evaluated
  | [] => []
  | argument :: rest => evaluate context argument :: evaluateAll context rest

end

end Rvx.Tracking
