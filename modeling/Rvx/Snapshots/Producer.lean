import Rvx.Core.Snapshots

/-!
# The snapshot producer

A bounded ring of full-state snapshots behind one mutex.  Every operation of the producer is a
function of the state it finds under the lock; the checks a capture makes before it takes the lock
do not read that state, so a capture is one step.  A capture whose eviction loop would spin forever
has no result.
-/

namespace Rvx.Snapshots

open Core Check

def MAX_BATCH_SNAPSHOTS : ℕ := 256
def MAX_BUFFER_SNAPSHOTS : ℕ := 1000000
def MAX_BUFFER_BYTES : ℕ := 1024 * 1024 * 1024

structure BufferLimits where
  maxSnapshots : ℕ
  maxBytes : ℕ

/-- One complete observation; identity, schema and sequence are the producer's. -/
structure SnapshotEvent where
  state : Json
  observedAtNs : Option ℤ
  axes : OrderedMap String ℤ

/-- Accepted interval and cumulative evictions after a capture. -/
structure CaptureReceipt where
  firstSequence : ℕ
  nextSequence : ℕ
  accepted : ℕ
  droppedSnapshots : ℕ
deriving DecidableEq

structure ProducerStats where
  bufferedSnapshots : ℕ
  bufferedBytes : ℕ
  droppedSnapshots : ℕ
  oldestSequence : ℕ
  nextSequence : ℕ
  isSealed : Bool

inductive ProducerError where
  | invalidInput (reason : String)
  /-- `InvalidInput` with the text of a protocol error. -/
  | input (error : ProtocolError)
  | isSealed
  | sequenceExhausted
  | snapshotUnavailable
deriving DecidableEq

structure BufferedSnapshot where
  snapshot : StateSnapshot
  bytes : ℕ
deriving DecidableEq

structure ProducerState where
  snapshots : List BufferedSnapshot
  bufferedBytes : ℕ
  droppedSnapshots : ℕ
  nextSequence : ℕ
  isSealed : Bool
  latestObservation : Option BufferedSnapshot
deriving DecidableEq

/-- `ProducerState::default()`. -/
def ProducerState.init : ProducerState := ⟨[], 0, 0, 0, false, none⟩

/-! ## Construction -/

def validateText (field text : String) (maximum : ℕ) (allowEmpty : Bool) :
    Except ProducerError Unit :=
  reject (text.utf8ByteSize > maximum ∨ (!allowEmpty && isBlank text))
    (.invalidInput (field ++ " must " ++ (if allowEmpty then "" else "be nonblank and ") ++
      "contain at most " ++ toString maximum ++ " UTF-8 bytes"))

/-- Run a check on every entry of a list. -/
def checkAll {α : Type} (check : α → Except ProducerError Unit) :
    List α → Except ProducerError Unit
  | [] => .ok ()
  | item :: rest => do
    check item
    checkAll check rest

def validateDescriptor (descriptor : SnapshotDescriptor) : Except ProducerError Unit := do
  reject (descriptor.protocolVersion ≠ 1 ∨ descriptor.schemaVersion ≠ 1)
    (.invalidInput "protocol_version and schema_version must be 1")
  validateText "source_session_id" descriptor.sourceSessionId 256 false
  validateText "project" descriptor.project 256 false
  validateText "experiment" descriptor.experiment 256 false
  validateText "run_id" descriptor.runId 256 false
  validateText "attempt_id" descriptor.attemptId 256 false
  validateText "role" descriptor.role 256 false
  checkAll (fun node ↦ validateText "node_id" node 256 false) descriptor.nodeId.toList
  reject (descriptor.labels.size > 64) (.invalidInput "labels exceed 64 entries")
  checkAll (fun entry ↦ do
    validateText "label name" entry.1 256 false
    validateText "label value" entry.2 1024 true) descriptor.labels.entries

/-- Limits within the supported bounds. -/
def BufferLimits.Supported (limits : BufferLimits) : Prop :=
  (1 ≤ limits.maxSnapshots ∧ limits.maxSnapshots ≤ MAX_BUFFER_SNAPSHOTS) ∧
    (1 ≤ limits.maxBytes ∧ limits.maxBytes ≤ MAX_BUFFER_BYTES)

instance (limits : BufferLimits) : Decidable limits.Supported :=
  inferInstanceAs (Decidable (_ ∧ _))

/-- The immutable part of a producer; only validated descriptors and limits build one. -/
structure SnapshotProducer where
  descriptor : SnapshotDescriptor
  limits : BufferLimits
  supported : limits.Supported
  validated : validateDescriptor descriptor = .ok ()

def SnapshotProducer.new (descriptor : SnapshotDescriptor) (limits : BufferLimits) :
    Except ProducerError (SnapshotProducer × ProducerState) :=
  if hlimits : limits.Supported then
    match hdescriptor : validateDescriptor descriptor with
    | .ok () => .ok (⟨descriptor, limits, hlimits, hdescriptor⟩, .init)
    | .error error => .error error
  else .error
    (.invalidInput "buffer count/byte limits must be positive and within supported bounds")

/-! ## Accounting -/

mutual

/-- Account retained JSON allocations. -/
def accountedValue (value : Value) (depth : ℕ) : Except ProducerError ℕ :=
  if depth > MAX_SNAPSHOT_DEPTH then .error (.invalidInput "JSON nesting exceeds 64 levels")
  else match value with
    | .array items => accountedItems items 64 (depth + 1)
    | .object entries => accountedEntries entries 64 (depth + 1)
    | .string text => .ok (64 + text.utf8ByteSize)
    | .number number => .ok (64 + String.utf8Len number.chars)
    | _ => .ok 64

def accountedItems (items : List Value) (bytes depth : ℕ) : Except ProducerError ℕ :=
  match items with
  | [] => .ok bytes
  | child :: rest =>
    match accountedValue child depth with
    | .ok size => accountedItems rest (bytes + size) depth
    | .error error => .error error

def accountedEntries (entries : List (String × Value)) (bytes depth : ℕ) :
    Except ProducerError ℕ :=
  match entries with
  | [] => .ok bytes
  | (key, child) :: rest =>
    match accountedValue child depth with
    | .ok size => accountedEntries rest (bytes + 128 + key.utf8ByteSize + size) depth
    | .error error => .error error

end

/-- The bytes the names of the axes account for. -/
def axesBytes (axes : OrderedMap String ℤ) : ℕ :=
  (axes.keys.map fun name ↦ 128 + name.utf8ByteSize).sum

/-! ## Capture -/

/-- A validated event with its accounted and encoded sizes. -/
structure Prepared where
  snapshot : StateSnapshot
  bytes : ℕ
  encoded : ℕ

namespace SnapshotProducer

variable (producer : SnapshotProducer)

/-- The snapshot an event becomes; `now` is the clock read when the event brings no time. -/
def snapshotOf (now : ℤ) (sequence : ℕ) (event : SnapshotEvent) : StateSnapshot where
  sourceSessionId := producer.descriptor.sourceSessionId
  sequence := sequence
  observedAtNs := event.observedAtNs.getD now
  schemaVersion := producer.descriptor.schemaVersion
  axes := event.axes
  state := event.state

/-- One round of the validation loop, given the bytes of the batch so far. -/
def prepare (now : ℤ) (batchBytes : ℕ) (event : SnapshotEvent) :
    Except ProducerError (Prepared × ℕ) := do
  reject (¬ event.state.value.isObject) (.invalidInput "state must be a JSON object")
  let stateBytes ← accountedValue event.state.value 0
  reject (event.axes.size > 64) (.invalidInput "axes exceed 64 entries")
  checkAll (fun name ↦ validateText "axis name" name 256 false) event.axes.keys
  let snapshot := producer.snapshotOf now 0 event
  (validateStateSnapshot snapshot).mapError .input
  reject (snapshot.encodedLength > MAX_SNAPSHOT_BYTES) (.invalidInput "snapshot exceeds 4 MiB")
  reject (batchBytes + (snapshot.encodedLength + 1) > MAX_SNAPSHOT_PAGE_BYTES)
    (.invalidInput "snapshot batch exceeds 16 MiB")
  let bytes := 512 + snapshot.sourceSessionId.utf8ByteSize + axesBytes event.axes + stateBytes
  reject (bytes > producer.limits.maxBytes)
    (.invalidInput "a snapshot exceeds the accounted buffer byte budget")
  return (⟨snapshot, bytes, snapshot.encodedLength⟩, batchBytes + (snapshot.encodedLength + 1))

/-- The validation loop; `now` reads the clock once for every event. -/
def prepareAll (now : ℕ → ℤ) (index batchBytes : ℕ) :
    List SnapshotEvent → Except ProducerError (List Prepared)
  | [] => .ok []
  | event :: rest => do
    let (prepared, batchBytes) ← producer.prepare (now index) batchBytes event
    let others ← prepareAll now (index + 1) batchBytes rest
    return prepared :: others

end SnapshotProducer

def pinnedBytes (state : ProducerState) : ℕ :=
  state.latestObservation.elim 0 fun entry ↦
    if state.snapshots.head?.all fun front ↦ entry.snapshot.sequence < front.snapshot.sequence then
      entry.bytes
    else 0

def oldestSequence (state : ProducerState) : ℕ :=
  state.snapshots.head?.elim state.nextSequence fun entry ↦ entry.snapshot.sequence

/-- Every snapshot still fits its byte limit once its sequence is written out. -/
def checkSequences (sequence : ℕ) : List Prepared → Except ProducerError Unit
  | [] => .ok ()
  | prepared :: rest =>
    let digits := Nat.log 10 sequence + 1
    if prepared.encoded + digits - 1 > MAX_SNAPSHOT_BYTES then
      .error (.invalidInput "snapshot exceeds 4 MiB including its assigned sequence")
    else checkSequences (sequence + 1) rest

/-- Every event fits beside the observation that is current when it is inserted. -/
def checkBudget (limits : BufferLimits) (latestBytes : ℕ) :
    List Prepared → Except ProducerError Unit
  | [] => .ok ()
  | prepared :: rest =>
    match isTrackerEvent prepared.snapshot.state.value with
    | .error error => .error (.input error)
    | .ok true =>
      if latestBytes + prepared.bytes > limits.maxBytes then
        .error (.invalidInput "event plus current observation exceeds producer byte budget")
      else checkBudget limits latestBytes rest
    | .ok false => checkBudget limits prepared.bytes rest

/-- The condition of the eviction loop. -/
def Overflows (limits : BufferLimits) (bytes : ℕ) (isEvent : Bool) (state : ProducerState) : Prop :=
  state.snapshots.length ≥ limits.maxSnapshots ∨
    state.bufferedBytes + bytes + (if isEvent then pinnedBytes state else 0) > limits.maxBytes

instance (limits : BufferLimits) (bytes : ℕ) (isEvent : Bool) (state : ProducerState) :
    Decidable (Overflows limits bytes isEvent state) :=
  inferInstanceAs (Decidable (_ ∨ _))

/-- The eviction loop, started on the snapshots `ring`; on an empty ring whose condition still
holds nothing changes any more and the loop never ends. -/
def evict (limits : BufferLimits) (bytes : ℕ) (isEvent : Bool) (state : ProducerState) :
    (ring : List BufferedSnapshot) → Option ProducerState
  | [] =>
    if Overflows limits bytes isEvent { state with snapshots := [] } then none
    else some { state with snapshots := [] }
  | removed :: rest =>
    if Overflows limits bytes isEvent { state with snapshots := removed :: rest } then
      evict limits bytes isEvent
        { state with
          bufferedBytes := state.bufferedBytes - removed.bytes
          droppedSnapshots := state.droppedSnapshots + 1 } rest
    else some { state with snapshots := removed :: rest }

/-- Append one prepared snapshot. -/
def append (prepared : Prepared) (sequence : ℕ) (isEvent : Bool) (state : ProducerState) :
    ProducerState :=
  let entry : BufferedSnapshot := ⟨{ prepared.snapshot with sequence }, prepared.bytes⟩
  { state with
    bufferedBytes := state.bufferedBytes + prepared.bytes
    latestObservation := if isEvent then state.latestObservation else some entry
    snapshots := state.snapshots ++ [entry] }

/-- The insertion loop; the state is returned also when a step fails. -/
def insertAll (limits : BufferLimits) (sequence : ℕ) (state : ProducerState) :
    List Prepared → Option (Except ProducerError Unit × ProducerState)
  | [] => some (.ok (), state)
  | prepared :: rest =>
    match isTrackerEvent prepared.snapshot.state.value with
    | .error error => some (.error (.input error), state)
    | .ok isEvent =>
      match evict limits prepared.bytes isEvent state state.snapshots with
      | none => none
      | some room =>
        insertAll limits (sequence + 1) (append prepared sequence isEvent room) rest

namespace SnapshotProducer

variable (producer : SnapshotProducer)

/-- The checks of a capture, before anything is assigned or evicted. -/
def checkBatch (now : ℕ → ℤ) (events : List SnapshotEvent) (state : ProducerState) :
    Except ProducerError (List Prepared × ℕ) := do
  reject state.isSealed .isSealed
  reject (events = [] ∨ events.length > MAX_BATCH_SNAPSHOTS)
    (.invalidInput "batch size must be between 1 and 256")
  let prepared ← producer.prepareAll now 0 2 events
  let nextSequence := state.nextSequence + prepared.length
  reject (nextSequence > I64_MAX) .sequenceExhausted
  checkSequences state.nextSequence prepared
  checkBudget producer.limits (state.latestObservation.elim 0 BufferedSnapshot.bytes) prepared
  return (prepared, nextSequence)

/-- Validate the whole batch, then insert it, evicting the oldest snapshots as needed. -/
def captureBatch (now : ℕ → ℤ) (events : List SnapshotEvent) (state : ProducerState) :
    Option (Except ProducerError CaptureReceipt × ProducerState) :=
  match producer.checkBatch now events state with
  | .error error => some (.error error, state)
  | .ok (prepared, nextSequence) =>
    match insertAll producer.limits state.nextSequence state prepared with
    | none => none
    | some (.error error, state') => some (.error error, state')
    | some (.ok (), state') =>
      some (.ok
        { firstSequence := state.nextSequence
          nextSequence
          accepted := prepared.length
          droppedSnapshots := state'.droppedSnapshots }, { state' with nextSequence })

end SnapshotProducer

/-! ## Reads and closure -/

def latest (state : ProducerState) : Except ProducerError StateSnapshot :=
  match state.latestObservation with
  | some entry => .ok entry.snapshot
  | none => .error .snapshotUnavailable

def stats (state : ProducerState) : ProducerStats where
  bufferedSnapshots := state.snapshots.length
  bufferedBytes := state.bufferedBytes + pinnedBytes state
  droppedSnapshots := state.droppedSnapshots
  oldestSequence := oldestSequence state
  nextSequence := state.nextSequence
  isSealed := state.isSealed

/-- Freeze captures; `seal` also returns the next sequence. -/
def sealCaptures (state : ProducerState) : ℕ × ProducerState :=
  (state.nextSequence, { state with isSealed := true })

/-- Seal and release retained history, keeping identity, sequence and eviction counters. -/
def sealAndReleaseHistory (state : ProducerState) : ℕ × ProducerState :=
  (state.nextSequence,
    { state with isSealed := true, bufferedBytes := 0, latestObservation := none, snapshots := [] })

end Rvx.Snapshots
