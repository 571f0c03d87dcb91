import Rvx.Tracking.Parser

/-!
# The alert engine

The engine evaluates every rule on a committed step or on a timer tick.  An evaluation prepares an
update, the new samples, the new rule states and the events, and the update is applied once the
transaction it belongs to has succeeded.
-/

namespace Rvx.Tracking

open Core Check

def MAX_WINDOW : ℕ := 100000

/-- `u64::MAX`. -/
def U64_MAX : ℕ := 2 ^ 64 - 1

structure RuleState where
  consecutive : ℕ
  fires : ℕ
  firing : Bool
  lastFireNs : Option ℤ
  lastStep : Option ℤ
  sinceNs : Option ℤ
deriving DecidableEq

/-- `RuleState::default()`. -/
def RuleState.init : RuleState := ⟨0, 0, false, none, none, none⟩

structure CompiledRule where
  rule : AlertRule
  expression : Expr
  state : RuleState

structure AlertEngine where
  rules : List CompiledRule
  series : OrderedMap String (List Sample)
  capacity : ℕ
  startedAtNs : ℤ
  lastObservedAtNs : Option ℤ

structure AlertUpdate where
  samples : List (String × Sample)
  states : List RuleState
  events : List AlertEvent
  lastObservedAtNs : Option ℤ

/-! ## Configuration -/

/-- A tag or channel list within its budget. -/
def validRouting (texts : List String) : Bool :=
  texts.length ≤ 256 &&
    texts.all fun text ↦ text.utf8ByteSize ≤ 256 && !text.toList.contains (Char.ofNat 0)

def validateRule (rule : AlertRule) (capacity : ℕ) : Except TrackerError Expr := do
  reject (isBlank rule.name ∨ rule.name.utf8ByteSize > 256 ∨ rule.forSteps = 0 ∨
      rule.message.utf8ByteSize > 4096 ∨ rule.forDurationMs > 86400000 ∨
      rule.cooldownSeconds > 31536000)
    (.invalidInput "invalid alert rule name/persistence/message limits")
  reject (validRouting rule.tags = false ∨ validRouting rule.channels = false)
    (.invalidInput "invalid rule routing/tag budget")
  let expression ← Parser.parse rule.condition
  expression.validate capacity
  reject (rule.forDurationMs > 0 ∧ expression.touchesTime = false)
    (.invalidInput
      "for_duration_ms requires an explicit time condition (age/no_data/elapsed)")
  return expression

/-- The rules compiled one after another; names must be distinct. -/
def compileRules (capacity : ℕ) (compiled : List CompiledRule) :
    List AlertRule → Except TrackerError (List CompiledRule)
  | [] => .ok compiled
  | rule :: rest => do
    reject (compiled.any fun other ↦ other.rule.name = rule.name)
      (.invalidInput "duplicate rule name")
    let expression ← validateRule rule capacity
    compileRules capacity (compiled ++ [⟨rule, expression, .init⟩]) rest

namespace AlertEngine

def new (rules : List AlertRule) (startedAtNs : ℤ) (capacity : ℕ) :
    Except TrackerError AlertEngine := do
  reject (capacity = 0 ∨ capacity > MAX_WINDOW) (.invalidInput "invalid alert window capacity")
  reject (rules.length > 256) (.invalidInput "alert rule limit is 256")
  let rules ← compileRules capacity [] rules
  return { rules, series := .empty, capacity, startedAtNs, lastObservedAtNs := none }

def addRule (engine : AlertEngine) (rule : AlertRule) : Except TrackerError AlertEngine := do
  reject (engine.rules.length ≥ 256) (.invalidInput "alert rule limit is 256")
  reject (engine.rules.any fun other ↦ other.rule.name = rule.name) (.duplicateRuleName rule.name)
  let expression ← validateRule rule engine.capacity
  return { engine with rules := engine.rules ++ [⟨rule, expression, .init⟩] }

/-- Also says whether there was such a rule. -/
def removeRule (engine : AlertEngine) (name : String) : Bool × AlertEngine :=
  let rules := engine.rules.filter fun compiled ↦ compiled.rule.name ≠ name
  (rules.length ≠ engine.rules.length, { engine with rules })

def hasTimeRules (engine : AlertEngine) : Bool :=
  engine.rules.any fun compiled ↦ compiled.expression.touchesTime

end AlertEngine

/-! ## Messages -/

section Messages

variable (text : FloatText)

/-- `{:?}` of an evaluated expression. -/
def debugEvaluated : Evaluated → String
  | .number value => "Number(" ++ text.debug value ++ ")"
  | .bool .no => "Bool(False)"
  | .bool .yes => "Bool(True)"
  | .bool .unknown => "Bool(Unknown)"
  | .duration value => "Duration(" ++ toString value ++ ")"
  | .series samples => "Series([" ++ ", ".intercalate (samples.map fun sample ↦
      "Sample \x7b observed_at_ns: " ++ toString sample.observedAtNs ++ ", step: " ++
        toString sample.step ++ ", value: " ++ text.debug sample.value ++ " \x7d") ++ "])"
  | .unknown => "Unknown"

/-- The precision a format names between its point and its last character. -/
def precisionOf (format : List Char) : Option ℕ :=
  match format with
  | '.' :: value =>
    -- A cut inside the last character is no text.
    if value.getLast?.all fun c ↦ c.utf8Size = 1 then
      let digits := match value.dropLast with
        | '+' :: digits => digits
        | digits => digits
      if digits ≠ [] ∧ digits.all Char.isDigit then
        some (digits.foldl (fun n c ↦ 10 * n + (c.toNat - 48)) 0)
      else none
    else none
  | _ => none

def formatMetric (value : Value) (format : Option (List Char)) : String :=
  match numericValue value with
  | none => String.ofList value.print
  | some number =>
    match format.bind fun format ↦ (precisionOf format).map fun precision ↦
        (precision, format.getLast?) with
    | some (precision, last) =>
      if precision > 20 then text.display number
      else if last = some 'f' then text.fixed precision number
      else if last = some 'e' then text.scientific precision number
      else text.display number
    | none => text.display number

/-- What a placeholder stands for. -/
def placeholder (step : ℤ) (metrics : Metrics) (expression : Expr) (context : EvalContext)
    (chars : List Char) : Option String :=
  let key := chars.takeWhile (· ≠ ':')
  let format := match chars.dropWhile (· ≠ ':') with
    | [] => none
    | _ :: format => some format
  match String.ofList key with
  | "step" => some (toString step)
  | "time" => some (text.display (Float.ofInt context.observedAtNs / 1000000000.0))
  | "expr" => some (debugEvaluated text (evaluate context expression))
  | key => (metrics.get? key).map fun value ↦ formatMetric text value.value format

/-- The template with its placeholders replaced; unknown ones stay. -/
def substitute (value : List Char → Option String) : (fuel : ℕ) → List Char → List Char
  | 0, rest => rest
  | fuel + 1, rest =>
    let before := rest.takeWhile (· ≠ Char.ofNat 0x7b)
    match rest.dropWhile (· ≠ Char.ofNat 0x7b) with
    | [] => before
    | start :: after =>
      let name := after.takeWhile (· ≠ Char.ofNat 0x7d)
      match after.dropWhile (· ≠ Char.ofNat 0x7d) with
      | [] => before ++ start :: after
      | stop :: tail =>
        let replaced := (value name).elim (start :: name ++ [stop]) String.toList
        before ++ replaced ++ substitute value fuel tail

def renderMessage (rule : AlertRule) (step : ℤ) (metrics : Metrics) (expression : Expr)
    (context : EvalContext) : String :=
  let template := (if rule.message = "" then rule.condition else rule.message).toList
  String.ofList
    (substitute (placeholder text step metrics expression context) template.length template)

end Messages

/-! ## Evaluation -/

/-- What an evaluation of a rule does to the world. -/
inductive Outcome where
  | quiet
  | fired
  | recovered
deriving DecidableEq

/-- A committed step counts once, however often it is evaluated; a tick never counts. -/
def countStep (tick : Bool) (step : ℤ) (state : RuleState) : RuleState :=
  if !tick && state.lastStep ≠ some step then
    { state with consecutive := min (state.consecutive + 1) U64_MAX, lastStep := some step }
  else state

/-- The rule has persisted long enough and is neither blocked, cooling nor exhausted. -/
def canFire (rule : AlertRule) (tick : Bool) (observedAtNs since : ℤ) (state : RuleState) : Bool :=
  let stepsReady := state.consecutive ≥ rule.forSteps || (tick && rule.forSteps = 1)
  let durationReady :=
    saturate (observedAtNs - since) ≥ saturate ((rule.forDurationMs : ℤ) * 1000000)
  let edgeBlocked := rule.mode = .edge && state.firing
  let cooling := state.lastFireNs.any fun last ↦
    saturate (observedAtNs - last) < saturate ((rule.cooldownSeconds : ℤ) * 1000000000)
  let exhausted := rule.maxFires.any fun limit ↦ state.fires ≥ limit.toNat
  stepsReady && durationReady && !edgeBlocked && !cooling && !exhausted

/-- The state of a rule after an evaluation with the given truth value. -/
def advance (rule : AlertRule) (tick : Bool) (step observedAtNs : ℤ) (truth : Tri)
    (state : RuleState) : RuleState × Outcome :=
  match truth with
  | .unknown =>
    -- Missing coverage cannot prove a continuously true duration.
    ({ state with sinceNs := none }, .quiet)
  | .no =>
    ({ state with consecutive := 0, sinceNs := none, firing := false },
      if state.firing then .recovered else .quiet)
  | .yes =>
    let since := state.sinceNs.getD observedAtNs
    let state := { countStep tick step state with sinceNs := some since }
    if canFire rule tick observedAtNs since state then
      ({ state with
          firing := true
          fires := min (state.fires + 1) U64_MAX
          lastFireNs := some observedAtNs }, .fired)
    else (state, .quiet)

namespace AlertEngine

/-- The events an outcome pushes. -/
def eventsOf (text : FloatText) (context : EvalContext) (compiled : CompiledRule) :
    Outcome → List AlertEvent
  | .quiet => []
  | .fired =>
    [{ rule := compiled.rule.name
       level := compiled.rule.level
       message := renderMessage text compiled.rule context.step context.metrics
         compiled.expression context
       step := context.step
       observedAtNs := context.observedAtNs
       recovered := false
       tags := compiled.rule.tags
       channels := compiled.rule.channels }]
  | .recovered =>
    if compiled.rule.notifyRecovery then
      [{ rule := compiled.rule.name
         level := .info
         message := compiled.rule.name ++ " recovered"
         step := context.step
         observedAtNs := context.observedAtNs
         recovered := true
         tags := compiled.rule.tags
         channels := compiled.rule.channels }]
    else []

/-- The rule's own settings in the context of an evaluation. -/
def contextOf (context : EvalContext) (rule : AlertRule) : EvalContext :=
  { context with partialWindow := rule.partialWindow, axis := rule.axis }

/-- The truth value of a rule, unless a tick passes it by. -/
def truthOf (context : EvalContext) (compiled : CompiledRule) : Option Tri :=
  if context.tick && !compiled.expression.touchesTime then none
  else some (evaluate (contextOf context compiled.rule) compiled.expression).truth

/-- One turn of the loop over the rules. -/
def evaluateRule (text : FloatText) (context : EvalContext) (compiled : CompiledRule) :
    RuleState × List AlertEvent :=
  match truthOf context compiled with
  | none => (compiled.state, [])
  | some truth =>
    let (state, outcome) :=
      advance compiled.rule context.tick context.step context.observedAtNs truth compiled.state
    (state, eventsOf text (contextOf context compiled.rule) compiled outcome)

/-- The samples of the metrics that are numbers. -/
def samplesOf (step observedAtNs : ℤ) (metrics : Metrics) : List (String × Sample) :=
  metrics.entries.filterMap fun entry ↦
    (numericValue entry.2.value).map fun value ↦ (entry.1, ⟨observedAtNs, step, value⟩)

/-- The context of a committed step. -/
def stepContext (engine : AlertEngine) (step observedAtNs : ℤ) (metrics : Metrics) :
    EvalContext where
  step := step
  observedAtNs := observedAtNs
  startedAtNs := engine.startedAtNs
  lastObservedAtNs := some observedAtNs
  metrics := metrics
  series := engine.series
  pending := .ofList (samplesOf step observedAtNs metrics)
  partialWindow := false
  axis := .wallTime
  tick := false

/-- The context of a timer tick: no metrics and no samples. -/
def tickContext (engine : AlertEngine) (step observedAtNs : ℤ) : EvalContext where
  step := step
  observedAtNs := observedAtNs
  startedAtNs := engine.startedAtNs
  lastObservedAtNs := engine.lastObservedAtNs
  metrics := .empty
  series := engine.series
  pending := .empty
  partialWindow := false
  axis := .wallTime
  tick := true

/-- The loop over the rules in a context. -/
def prepare (text : FloatText) (engine : AlertEngine) (context : EvalContext)
    (samples : List (String × Sample)) : AlertUpdate :=
  let results := engine.rules.map (evaluateRule text context)
  { samples
    states := results.map Prod.fst
    events := results.flatMap Prod.snd
    lastObservedAtNs := context.lastObservedAtNs }

def prepareStep (text : FloatText) (engine : AlertEngine) (step observedAtNs : ℤ)
    (metrics : Metrics) : AlertUpdate :=
  prepare text engine (stepContext engine step observedAtNs metrics)
    (samplesOf step observedAtNs metrics)

def prepareTick (text : FloatText) (engine : AlertEngine) (step observedAtNs : ℤ) : AlertUpdate :=
  prepare text engine (tickContext engine step observedAtNs) []

/-- Append a sample to its series, dropping the oldest above the capacity. -/
def pushSample (capacity : ℕ) (series : OrderedMap String (List Sample))
    (entry : String × Sample) : OrderedMap String (List Sample) :=
  let samples := (series.get? entry.1).getD [] ++ [entry.2]
  series.insert entry.1 (samples.drop (samples.length - capacity))

def setStates : List CompiledRule → List RuleState → List CompiledRule
  | compiled :: rules, state :: states => { compiled with state } :: setStates rules states
  | rules, _ => rules

def apply (engine : AlertEngine) (update : AlertUpdate) : AlertEngine :=
  { engine with
    series := update.samples.foldl (pushSample engine.capacity) engine.series
    rules := setStates engine.rules update.states
    lastObservedAtNs := update.lastObservedAtNs }

/-- A sample takes 24 bytes. -/
def checkBudget (engine : AlertEngine) (maxFields maxBytes : ℕ) : Except TrackerError Unit :=
  let bytes := (engine.series.entries.map fun entry ↦
    entry.1.utf8ByteSize + entry.2.length * 24 + 128).sum
  reject (engine.series.size > maxFields ∨ bytes > maxBytes)
    (.invalidInput "alert series cardinality/byte budget exceeded")

end AlertEngine

end Rvx.Tracking
