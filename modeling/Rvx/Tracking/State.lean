import Rvx.Core.Artifacts
import Rvx.Core.Tracker
import Rvx.Tracking.AlertEngine

/-!
# Tracker state

The options and the working state of a tracker, the records it commits and their JSON.  A record
keeps the arguments of the snapshot it becomes; the snapshot is written from them when the batch it
belongs to is captured.
-/

namespace Rvx.Tracking

open Core Check

inductive StepPolicy where
  | monotonic
  | allow
deriving DecidableEq

structure TrackerOptions where
  stepAxis : String
  historySteps : ℕ
  stepPolicy : StepPolicy
  spanCount : Bool
  alertWindow : ℕ
  watchdogIntervalMs : ℕ
  maxStateBytes : ℕ
  maxHistoryBytes : ℕ
  maxMetrics : ℕ
  maxSpans : ℕ
  maxAlertSeriesBytes : ℕ
  deliveryQueueCapacity : ℕ
  shutdownTimeoutMs : ℕ

def containsNul (text : String) : Bool := text.toList.contains (Char.ofNat 0)

namespace TrackerOptions

def default : TrackerOptions where
  stepAxis := "step"
  historySteps := 1024
  stepPolicy := .monotonic
  spanCount := false
  alertWindow := 1024
  watchdogIntervalMs := 30000
  maxStateBytes := 8 * 1024 * 1024
  maxHistoryBytes := 64 * 1024 * 1024
  maxMetrics := 4096
  maxSpans := 4096
  maxAlertSeriesBytes := 64 * 1024 * 1024
  deliveryQueueCapacity := 1024
  shutdownTimeoutMs := 5000

/-- `(low..=high).contains(&value)`. -/
def within (low high value : ℕ) : Bool := low ≤ value && value ≤ high

def validate (options : TrackerOptions) : Except TrackerError Unit := do
  reject (isBlank options.stepAxis ∨ containsNul options.stepAxis ∨
      options.stepAxis.utf8ByteSize > 256)
    (.invalidInput "step_axis must contain 1..=256 non-NUL bytes")
  reject (within 1 1000000 options.historySteps = false)
    (.invalidInput "history_steps must be between 1 and 1000000")
  reject (within 1 100000 options.alertWindow = false)
    (.invalidInput "alert_window must be between 1 and 100000")
  reject (options.watchdogIntervalMs ≠ 0 ∧ within 100 3600000 options.watchdogIntervalMs = false)
    (.invalidInput "watchdog_interval_ms must be zero or between 100 and 3600000")
  reject (within 1 (64 * 1024 * 1024) options.maxStateBytes = false ∨
      within 1 (1024 * 1024 * 1024) options.maxHistoryBytes = false ∨
      within 1 (1024 * 1024 * 1024) options.maxAlertSeriesBytes = false ∨
      within 1 100000 options.maxMetrics = false ∨ within 1 100000 options.maxSpans = false ∨
      within 1 100000 options.deliveryQueueCapacity = false ∨
      within 1 60000 options.shutdownTimeoutMs = false)
    (.invalidInput "invalid tracker byte/cardinality/lifecycle budget")

end TrackerOptions

structure SpanRecord where
  name : String
  startNs : ℤ
  endNs : ℤ
  durationMs : Float
  attributes : Json
  error : Option String

/-- An artifact record whose metadata is a value the JSON library can hold. -/
structure TrackedArtifact where
  record : ArtifactRecord
  sorted : record.metadata.sorted = true

structure CommittedStep where
  step : ℤ
  observedAtNs : ℤ
  metrics : Metrics
  summary : Metrics
  alerts : List AlertEvent
  spans : List SpanRecord
  artifacts : List TrackedArtifact

structure HistoryEntry where
  record : CommittedStep
  bytes : ℕ

/-- The retained steps with `history_bytes` and `evicted_steps`. -/
structure History where
  entries : List HistoryEntry
  bytes : ℕ
  evictedSteps : ℕ

inductive TrackerStatus where
  | running
  | finished
  | failed
deriving DecidableEq

def TrackerStatus.text : TrackerStatus → String
  | .running => "running"
  | .finished => "finished"
  | .failed => "failed"

structure TrackerState where
  status : TrackerStatus
  nextStep : ℤ
  openStep : Option ℤ
  openMetrics : Metrics
  openSpans : List SpanRecord
  lastCommittedStep : Option ℤ
  summary : Metrics
  history : History
  commits : ℕ
  alerts : AlertEngine
  finished : Bool

/-- The arguments of `snapshot_event`. -/
structure TrackerRecord where
  kind : TrackerRecordKind
  step : ℤ
  observedAtNs : ℤ
  metrics : Metrics
  summary : Metrics
  alerts : List AlertEvent
  spans : List SpanRecord
  artifacts : List TrackedArtifact
  status : TrackerStatus
  commit : ℕ

/-! ## JSON -/

section Encoding

variable (floats : FloatText)

/-- `Value::from(f64)`. -/
def jsonFloat (value : Float) : Json :=
  if value.isFinite then .number (floats.token value) else .null

/-- A struct as it is serialized, its fields in declaration order. -/
def printFields (fields : List (String × Json)) : List Char :=
  printObject (fields.map fun field ↦ member field.1 field.2.value.print)

def AlertEvent.fields (event : AlertEvent) : List (String × Json) :=
  [("rule", .text event.rule), ("level", .text event.level.text), ("message", .text event.message),
   ("step", .int event.step), ("observed_at_ns", .int event.observedAtNs),
   ("recovered", .bool event.recovered), ("tags", .array (event.tags.map Json.text)),
   ("channels", .array (event.channels.map Json.text))]

/-- An absent error is skipped. -/
def SpanRecord.fields (span : SpanRecord) : List (String × Json) :=
  [("name", .text span.name), ("start_ns", .int span.startNs), ("end_ns", .int span.endNs),
   ("duration_ms", jsonFloat floats span.durationMs), ("attributes", span.attributes)] ++
    (span.error.map fun error ↦ ("error", Json.text error)).toList

def TrackedArtifact.fields (artifact : TrackedArtifact) : List (String × Json) :=
  let record := artifact.record
  [("record_version", .int record.recordVersion), ("action", .text record.action.text),
   ("name", .text record.name), ("type", .text record.kind), ("digest", .text record.digest),
   ("size", .int record.size), ("uri", .text record.uri),
   ("aliases", .array (record.aliases.map Json.text)),
   ("metadata", ⟨record.metadata, artifact.sorted⟩)]

/-- `serde_json::to_vec(&record)`. -/
def CommittedStep.chars (record : CommittedStep) : List Char :=
  printObject
    [member "step" (printInt record.step), member "observed_at_ns" (printInt record.observedAtNs),
     member "metrics" (Json.object record.metrics).value.print,
     member "summary" (Json.object record.summary).value.print,
     member "alerts" (printArray (record.alerts.map fun event ↦ printFields event.fields)),
     member "spans" (printArray (record.spans.map fun span ↦ printFields (span.fields floats))),
     member "artifacts"
       (printArray (record.artifacts.map fun artifact ↦ printFields artifact.fields))]

def kindText : TrackerRecordKind → String
  | .observation => "observation"
  | .event => "event"

namespace TrackerRecord

/-- The record as history keeps it. -/
def committed (record : TrackerRecord) : CommittedStep where
  step := record.step
  observedAtNs := record.observedAtNs
  metrics := record.metrics
  summary := record.summary
  alerts := record.alerts
  spans := record.spans
  artifacts := record.artifacts

/-- The names of the metrics that stand for no finite number. -/
def nonfinite (record : TrackerRecord) : List String :=
  record.metrics.entries.filterMap fun entry ↦
    if isNonfinite entry.2.value then some entry.1 else none

/-- The `tracker` member of the state. -/
def header (record : TrackerRecord) : Json :=
  .literal
    [("record_version", .int TRACKER_RECORD_VERSION),
     ("kind", .text (kindText record.kind)), ("step", .int record.step),
     ("status", .text record.status.text), ("commit", .int record.commit),
     ("nonfinite", .array (record.nonfinite.map Json.text))]

/-- `snapshot_event`. -/
def event (config : Json) (options : TrackerOptions) (record : TrackerRecord) :
    Snapshots.SnapshotEvent where
  state := .literal
    [("metrics", .object record.metrics), ("summary", .object record.summary), ("config", config),
     ("tracker", record.header),
     ("alerts", .array (record.alerts.map fun event ↦ .literal event.fields)),
     ("spans", .array (record.spans.map fun span ↦ .literal (span.fields floats))),
     ("artifacts", .array (record.artifacts.map fun artifact ↦ .literal artifact.fields))]
  observedAtNs := some record.observedAtNs
  axes := .ofList [(options.stepAxis, record.step)]

end TrackerRecord

end Encoding

/-! ## Steps -/

inductive StepDecision where
  | keep
  | commitOpen
  | reject (reason : String)
deriving DecidableEq

def resolveStep (state : TrackerState) (requested : Option ℤ) : ℤ :=
  (requested.or state.openStep).getD state.nextStep

def ensureActive (state : TrackerState) : Except TrackerError Unit :=
  reject (state.finished = true) .finished

def stepDecision (state : TrackerState) (target : ℤ) (policy : StepPolicy) : StepDecision :=
  match state.openStep with
  | some openStep =>
    if target > openStep ∨ (target < openStep ∧ policy = .allow) then .commitOpen
    else if target < openStep then
      .reject ("step " ++ toString target ++ " is behind the open monotonic step " ++
        toString openStep)
    else .keep
  | none =>
    if target < state.nextStep ∧ policy = .monotonic ∧ state.lastCommittedStep ≠ some target then
      .reject ("step " ++ toString target ++ " is behind the next monotonic step " ++
        toString state.nextStep)
    else .keep

def validateMetricName (name : String) : Except TrackerError Unit :=
  reject (isBlank name ∨ containsNul name ∨ name.utf8ByteSize > 4096 ∨ name ∈ ["_step", "_time"])
    (.invalidMetricName name)

def validateSpan (span : SpanRecord) : Except TrackerError Unit := do
  reject (isBlank span.name ∨ containsNul span.name ∨ span.name.utf8ByteSize > 4096)
    (.invalidInput "span name must contain 1..=4096 non-NUL bytes")
  reject (span.durationMs.isFinite = false ∨ span.durationMs < 0.0 ∨ span.endNs < span.startNs)
    (.invalidInput "span duration and timestamps are invalid")
  reject (¬ span.attributes.value.isObject)
    (.invalidInput "span attributes must be a JSON object")

def accumulate (floats : FloatText) (metrics : Metrics) (path : String) (value : Float) : Metrics :=
  let current := ((metrics.get? path).bind fun json ↦ json.value.asFloat).getD 0.0
  metrics.insert path (jsonFloat floats (current + value))

/-! ## History -/

section History

variable (floats : FloatText) (options : TrackerOptions)

/-- The condition of the eviction loop. -/
def History.Overflows (options : TrackerOptions) (history : History) : Prop :=
  history.entries.length > options.historySteps ∨ history.bytes > options.maxHistoryBytes

instance (history : History) : Decidable (history.Overflows options) :=
  inferInstanceAs (Decidable (_ ∨ _))

/-- The eviction loop; the entries are given again as what is left of them. -/
def evictHistory (history : History) : List HistoryEntry → History
  | [] => { history with entries := [] }
  | old :: rest =>
    if { history with entries := old :: rest }.Overflows options then
      evictHistory
        { history with
          bytes := history.bytes - old.bytes
          evictedSteps := history.evictedSteps + 1 } rest
    else { history with entries := old :: rest }

/-- A further commit to a retained step. -/
def CommittedStep.merge (existing record : CommittedStep) : CommittedStep where
  step := existing.step
  observedAtNs := max existing.observedAtNs record.observedAtNs
  metrics := existing.metrics.extend record.metrics
  summary := record.summary
  alerts := existing.alerts ++ record.alerts
  spans := existing.spans ++ record.spans
  artifacts := existing.artifacts ++ record.artifacts

def History.find? (history : History) (step : ℤ) : Option HistoryEntry :=
  history.entries.find? fun entry ↦ entry.record.step = step

/-- The history without the entry of a step. -/
def History.remove (history : History) (step : ℤ) : History :=
  match history.find? step with
  | none => history
  | some old =>
    { history with
      entries := history.entries.eraseP fun entry ↦ entry.record.step = step
      bytes := history.bytes - old.bytes }

def mergeHistory (history : History) (record : CommittedStep) : Except TrackerError History := do
  let merged := (history.find? record.step).elim record fun entry ↦ entry.record.merge record
  let bytes := String.utf8Len (merged.chars floats)
  reject (bytes > options.maxHistoryBytes)
    (.invalidInput "committed step exceeds history byte budget")
  let kept := history.remove record.step
  let entries := kept.entries ++ [⟨merged, bytes⟩]
  return evictHistory options { kept with bytes := kept.bytes + bytes } entries

end History

end Rvx.Tracking
