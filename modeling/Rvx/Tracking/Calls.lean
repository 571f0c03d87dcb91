import Rvx.Snapshots.Session
import Rvx.Tracking.State

/-!
# Tracker calls

Every call of a tracker prepares a batch on a copy of the state: open rows are committed, events are
added, rules are evaluated.  Only then the batch is captured by the producer, and only a capture
that succeeds makes the copy the new state.  The whole call runs under the state's lock.
-/

namespace Rvx.Tracking

open Core Check

/-- `i64::MAX`. -/
def STEP_MAX : ℤ := 2 ^ 63 - 1

structure LogResult where
  accepted : Bool
  step : Option ℤ
  committed : ℕ
  reason : Option String
  capture : Option Snapshots.CaptureReceipt
deriving DecidableEq

structure PreparedBatch where
  next : TrackerState
  events : List TrackerRecord
  alerts : List AlertEvent

/-- The immutable part of a tracker. -/
structure Tracker where
  producer : Snapshots.SnapshotProducer
  config : Json
  options : TrackerOptions
  floats : FloatText
  validated : options.validate = .ok ()

/-- What the state's lock guards, the producer, and the alerts handed to the delivery queue. -/
structure World where
  state : TrackerState
  producer : Snapshots.ProducerState
  sent : List AlertEvent

def accepted (step : Option ℤ) : LogResult := ⟨true, step, 0, none, none⟩

def eventStep (state : TrackerState) : ℤ :=
  (state.openStep.or state.lastCommittedStep).getD state.nextStep

/-- Among `i64` values only `i64::MAX` itself is at least `i64::MAX`. -/
def validateStep (step : Option ℤ) : Except TrackerError Unit :=
  reject (step.any fun step ↦ step < 0 || step ≥ STEP_MAX)
    (.invalidInput "step must be in 0..i64::MAX")

namespace Tracker

variable (tracker : Tracker)

/-! ## Preparing a batch -/

/-- The working state as the byte budget sees it. -/
def workingState (state : TrackerState) : Json :=
  .literal
    [("open", .object state.openMetrics),
     ("spans", .array (state.openSpans.map fun span ↦ .literal (span.fields tracker.floats))),
     ("summary", .object state.summary), ("config", tracker.config)]

def checkBudget (state : TrackerState) : Except TrackerError Unit := do
  reject (state.openMetrics.size > tracker.options.maxMetrics ∨
      state.summary.size > tracker.options.maxMetrics ∨
      state.openSpans.length > tracker.options.maxSpans)
    (.invalidInput "tracker metric/span cardinality budget exceeded")
  reject (String.utf8Len (tracker.workingState state).value.print > tracker.options.maxStateBytes)
    (.invalidInput "tracker working-state byte budget exceeded")
  state.alerts.checkBudget tracker.options.maxMetrics tracker.options.maxAlertSeriesBytes

/-- The record a commit of the open row at a step produces. -/
def commitRecord (state : TrackerState) (step observed : ℤ) : TrackerRecord where
  kind := .observation
  step := step
  observedAtNs := observed
  metrics := state.openMetrics
  summary := state.summary.extend state.openMetrics
  alerts := (state.alerts.prepareStep tracker.floats step observed state.openMetrics).events
  spans := state.openSpans
  artifacts := []
  status := state.status
  commit := state.commits + 1

/-- The state after that commit, with the merged history. -/
def commitState (state : TrackerState) (step observed : ℤ) (history : History) : TrackerState :=
  { state with
    openStep := none
    openMetrics := .empty
    openSpans := []
    summary := state.summary.extend state.openMetrics
    alerts := state.alerts.apply
      (state.alerts.prepareStep tracker.floats step observed state.openMetrics)
    commits := state.commits + 1
    nextStep := max state.nextStep (step + 1)
    lastCommittedStep := some step
    history }

/-- Commit the open row, if there is one. -/
def prepareCommit (batch : PreparedBatch) (observed : ℤ) : Except TrackerError PreparedBatch :=
  match batch.next.openStep with
  | none => .ok batch
  | some step => do
    reject (step = STEP_MAX) (.invalidInput "step cursor exhausted")
    let record := tracker.commitRecord batch.next step observed
    let history ←
      mergeHistory tracker.floats tracker.options batch.next.history record.committed
    let next := tracker.commitState batch.next step observed history
    tracker.checkBudget next
    return { next, events := batch.events ++ [record], alerts := batch.alerts ++ record.alerts }

/-- The record of an event at the current step. -/
def eventRecord (state : TrackerState) (observed : ℤ) (alerts : List AlertEvent)
    (artifacts : List TrackedArtifact) : TrackerRecord where
  kind := .event
  step := eventStep state
  observedAtNs := observed
  metrics := .empty
  summary := state.summary
  alerts := alerts
  spans := []
  artifacts := artifacts
  status := state.status
  commit := state.commits + 1

/-- Add an event record. -/
def prepareEvent (batch : PreparedBatch) (observed : ℤ) (alerts : List AlertEvent)
    (artifacts : List TrackedArtifact) : PreparedBatch where
  next := { batch.next with commits := batch.next.commits + 1 }
  events := batch.events ++ [eventRecord batch.next observed alerts artifacts]
  alerts := batch.alerts ++ alerts

/-- Decide on the open row for a target step; a rejection ends the call with its result. -/
def selectStep (batch : PreparedBatch) (target observed : ℤ) :
    Except TrackerError (Option LogResult × PreparedBatch) :=
  match stepDecision batch.next target tracker.options.stepPolicy with
  | .keep => .ok (none, batch)
  | .commitOpen => do
    let batch ← tracker.prepareCommit batch observed
    return (none, batch)
  | .reject reason => .ok (some ⟨false, some target, 0, some reason, none⟩, batch)

/-! ## The calls -/

/-- The calls and their arguments; a call reads the clock when it is given no time. -/
inductive Call where
  | log (metrics : Json) (step : Option ℤ) (commit : Option Bool) (observed : ℤ)
  | flush (observed : ℤ)
  | recordSpan (span : SpanRecord) (step : Option ℤ)
  | manualAlert (title text : String) (level : AlertLevel) (tags channels : List String)
      (observed : ℤ)
  | artifact (artifact : TrackedArtifact) (observed : ℤ)
  | tickAlerts (observed : ℤ)
  | finishStatus (observed : ℤ) (failed : Bool)

/-- The entries of an object, each with the order of its own objects. -/
def sortedEntries (entries : List (String × Value))
    (hsorted : (Value.object entries).sorted = true) : Metrics where
  entries := entries.attach.map fun entry ↦ (entry.1.1, ⟨entry.1.2, by
    rw [Value.sorted, Value.sortedEntries_eq, Bool.and_eq_true] at hsorted
    exact List.all_eq_true.mp hsorted.2 entry.1 entry.2⟩)
  ascending := by
    have hkeys : (entries.attach.map fun entry ↦ entry.1.1) = entries.map Prod.fst := by
      calc
        _ = (entries.attach.map Subtype.val).map Prod.fst := by
          rw [List.map_map]
          rfl
        _ = _ := by rw [List.attach_map_subtype_val]
    rw [Value.sorted, Bool.and_eq_true, decide_eq_true_eq, ← hkeys] at hsorted
    rw [List.map_map]
    exact hsorted.1

/-- The metrics of a `log` call. -/
def metricsOf (metrics : Json) : Except TrackerError Metrics :=
  match metrics with
  | ⟨.object entries, hsorted⟩ => .ok (sortedEntries entries hsorted)
  | _ => .error (.invalidInput "metrics must be a JSON object")

def prepareLog (metrics : Metrics) (step : Option ℤ) (commit : Option Bool) (observed : ℤ)
    (batch : PreparedBatch) : Except TrackerError (LogResult × PreparedBatch) := do
  let target := resolveStep batch.next step
  match ← tracker.selectStep batch target observed with
  | (some rejected, batch) => return (rejected, batch)
  | (none, batch) =>
    let batch := { batch with next := { batch.next with
      openStep := some target
      openMetrics := batch.next.openMetrics.extend metrics } }
    if commit.getD step.isNone then
      let batch ← tracker.prepareCommit batch observed
      return (accepted (some target), batch)
    else return (accepted (some target), batch)

/-- The open metrics with the duration, and if wanted the count, of a span. -/
def spanMetrics (span : SpanRecord) (metrics : Metrics) : Metrics :=
  let metrics := accumulate tracker.floats metrics ("time_ms/" ++ span.name) span.durationMs
  if tracker.options.spanCount then
    accumulate tracker.floats metrics ("count/" ++ span.name) 1.0
  else metrics

def prepareSpan (span : SpanRecord) (step : Option ℤ) (batch : PreparedBatch) :
    Except TrackerError (LogResult × PreparedBatch) := do
  let target := resolveStep batch.next step
  match ← tracker.selectStep batch target span.endNs with
  | (some rejected, batch) => return (rejected, batch)
  | (none, batch) =>
    return (accepted (some target),
      { batch with next := { batch.next with
        openStep := some target
        openMetrics := tracker.spanMetrics span batch.next.openMetrics
        openSpans := batch.next.openSpans ++ [span] } })

def prepareTick (observed : ℤ) (batch : PreparedBatch) : LogResult × PreparedBatch :=
  let step := eventStep batch.next
  let update := batch.next.alerts.prepareTick tracker.floats step observed
  let batch := { batch with next := { batch.next with alerts := batch.next.alerts.apply update } }
  (accepted (some step),
    if update.events = [] then batch else prepareEvent batch observed update.events [])

def prepareFinish (observed : ℤ) (failed : Bool) (batch : PreparedBatch) :
    Except TrackerError (LogResult × PreparedBatch) := do
  let batch ← tracker.prepareCommit batch observed
  let status := if failed then TrackerStatus.failed else .finished
  let batch := prepareEvent { batch with next := { batch.next with status } } observed [] []
  return (accepted batch.next.lastCommittedStep,
    { batch with next := { batch.next with finished := true } })

/-- The event of a manual alert. -/
def manualEvent (state : TrackerState) (title text : String) (level : AlertLevel)
    (tags channels : List String) (observed : ℤ) : AlertEvent where
  rule := title
  level := level
  message := text
  step := eventStep state
  observedAtNs := observed
  recovered := false
  tags := tags
  channels := channels

/-- The checks a call makes before its transaction. -/
def validateCall : Call → Except TrackerError Unit
  | .log metrics step _ _ => do
    let metrics ← metricsOf metrics
    metrics.keys.forM validateMetricName
    validateStep step
  | .recordSpan span step => do
    validateSpan span
    validateStep step
  | .manualAlert title _ _ _ _ _ =>
    reject (isBlank title) (.invalidInput "alert title must not be empty")
  | .artifact artifact _ => artifact.record.validate.mapError .input
  | .flush _ | .tickAlerts _ | .finishStatus _ _ => .ok ()

/-- The closure a call hands to `transact`. -/
def prepareCall (batch : PreparedBatch) : Call → Except TrackerError (LogResult × PreparedBatch)
  | .log metrics step commit observed => do
    let metrics ← metricsOf metrics
    tracker.prepareLog metrics step commit observed batch
  | .flush observed => do
    let batch ← tracker.prepareCommit batch observed
    return (accepted batch.next.lastCommittedStep, batch)
  | .recordSpan span step => tracker.prepareSpan span step batch
  | .manualAlert title text level tags channels observed =>
    .ok (accepted (some (eventStep batch.next)),
      prepareEvent batch observed
        [manualEvent batch.next title text level tags channels observed] [])
  | .artifact artifact observed =>
    .ok (accepted (some (eventStep batch.next)), prepareEvent batch observed [] [artifact])
  | .tickAlerts observed => .ok (tracker.prepareTick observed batch)
  | .finishStatus observed failed => tracker.prepareFinish observed failed batch

/-! ## Transactions -/

/-- The part of `transact` before the capture. -/
def prepared (state : TrackerState) (call : Call) :
    Except TrackerError (LogResult × PreparedBatch) := do
  ensureActive state
  let (result, batch) ← tracker.prepareCall ⟨state, [], []⟩ call
  tracker.checkBudget batch.next
  return ({ result with committed := batch.events.length }, batch)

/-- The snapshots the records of a batch are captured from. -/
def eventsOf (records : List TrackerRecord) : List Snapshots.SnapshotEvent :=
  records.map fun record ↦ record.event tracker.floats tracker.config tracker.options

/-- The state of the lock after a capture that succeeded. -/
def commit (world : World) (batch : PreparedBatch) (producer : Snapshots.ProducerState) : World where
  state := batch.next
  producer := if batch.next.finished then (Snapshots.sealCaptures producer).2 else producer
  sent := world.sent ++ batch.alerts

/-- `transact`; there is no result when the capture never returns. -/
def transact (now : ℕ → ℤ) (world : World) (call : Call) :
    Option (Except TrackerError LogResult × World) :=
  match tracker.prepared world.state call with
  | .error error => some (.error error, world)
  | .ok (result, batch) =>
    if batch.events = [] then some (.ok result, commit world batch world.producer)
    else
      (tracker.producer.captureBatch now (tracker.eventsOf batch.events) world.producer).map
        fun (captured, producer) ↦
          match captured with
          | .error error => (.error (.producer error), { world with producer })
          | .ok receipt =>
            (.ok { result with capture := some receipt }, commit world batch producer)

/-- A call; finishing a finished tracker reports its last step. -/
def call (now : ℕ → ℤ) (world : World) (call : Call) :
    Option (Except TrackerError LogResult × World) :=
  match validateCall call with
  | .error error => some (.error error, world)
  | .ok () =>
    match call with
    | .finishStatus _ _ =>
      if world.state.finished then some (.ok (accepted world.state.lastCommittedStep), world)
      else tracker.transact now world call
    | _ => tracker.transact now world call

/-! ## Construction and rules -/

/-- The state of a new tracker. -/
def initialState (alerts : AlertEngine) : TrackerState where
  status := .running
  nextStep := 0
  openStep := none
  openMetrics := .empty
  openSpans := []
  lastCommittedStep := none
  summary := .empty
  history := ⟨[], 0, 0⟩
  commits := 0
  alerts := alerts
  finished := false

def new (producer : Snapshots.SnapshotProducer) (config : Json) (options : TrackerOptions)
    (floats : FloatText) (rules : List AlertRule) (now : ℤ) :
    Except TrackerError (Tracker × TrackerState) :=
  match hvalid : options.validate with
  | .error error => .error error
  | .ok () => do
    reject (¬ config.value.isObject) (.invalidInput "tracker config must be a JSON object")
    let alerts ← AlertEngine.new rules now options.alertWindow
    let tracker : Tracker := ⟨producer, config, options, floats, hvalid⟩
    tracker.checkBudget (initialState alerts)
    return (tracker, initialState alerts)

def addAlertRule (state : TrackerState) (rule : AlertRule) : Except TrackerError TrackerState := do
  ensureActive state
  let alerts ← state.alerts.addRule rule
  return { state with alerts }

def removeAlertRule (state : TrackerState) (name : String) :
    Except TrackerError (Bool × TrackerState) := do
  ensureActive state
  let (removed, alerts) := state.alerts.removeRule name
  return (removed, { state with alerts })

end Tracker

end Rvx.Tracking
