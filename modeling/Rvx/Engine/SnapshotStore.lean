import Rvx.Engine.Database

/-!
# The snapshot store

Ingestion of one page, ingestion of a batch with one savepoint for every page, and the cursor a
publisher asks for.  `now` lists the successive readings of the clock.
-/

namespace Rvx.Engine

open Core Check Script Database

def invalid {α : Type} (message : String) : Except EngineError α := .error (.invalidInput message)

def checkIds (ids : List String) (maximum : ℕ) : Except EngineError Unit :=
  reject (ids.length > maximum ∨ ids.any fun id ↦ isBlank id || decide (id.utf8ByteSize > 4096))
    (.invalidInput "too many identifiers, or empty/oversized identifier")

/-! ## Ingestion of a page -/

section Page

variable (serde : Serde) (now : ℕ → ℤ) (source : Source)

/-- The page continues the cursor: its first new snapshot is the expected one, and skipping ahead
must be declared. -/
def checkContinuity (committed : ℕ) (page : SnapshotHistoryResponse) : Except EngineError Unit :=
  let expected := max committed page.oldestSequence
  match page.snapshots.find? fun snapshot ↦ snapshot.sequence ≥ committed with
  | some firstNew =>
    if firstNew.sequence ≠ expected then invalid "snapshot page skips an unreported sequence"
    else if page.oldestSequence > committed ∧ page.droppedBefore ≠ some page.oldestSequence then
      invalid "expired snapshot cursor requires dropped_before"
    else .ok ()
  | none =>
    if page.nextSequence > committed then
      invalid "empty or duplicate page cannot advance the snapshot cursor"
    else .ok ()

/-- The row of a new snapshot. -/
def rowOf (session : String) (ingested : ℤ) (snapshot : StateSnapshot) (id : ℕ) : SnapshotRow where
  id := id
  runId := source.runId
  sourceId := source.id
  sourceSessionId := session
  sequence := snapshot.sequence
  observedAtNs := snapshot.observedAtNs
  ingestedAtNs := ingested
  snapshotJson := snapshot.encode

/-- The statements that store one new snapshot and everything derived from it. -/
def storeSnapshot (session : String) (ingested : ℤ) (snapshot : StateSnapshot) :
    Script Database EngineError Unit := do
  attempt (insertSnapshot (rowOf source session ingested snapshot))
  let id ← read snapshotSeq
  onChart (ChartIndex.insert id source.runId source.id snapshot)
  onArtifacts (ArtifactIndex.insert serde.artifactMessage id source.runId source.id snapshot)
  let event ← check ((isTrackerEvent snapshot.state.value).mapError .protocol)
  if event then pure ()
  else onHeads (modify (upsertHead ⟨source.runId, source.id, id⟩))

/-- The loop over the page's snapshots, returning the number accepted. -/
def ingestSnapshots (session : String) (committed : ℕ) (accepted index : ℕ) :
    List StateSnapshot → Script Database EngineError ℕ
  | [] => pure accepted
  | snapshot :: rest => do
    let stored ← read (stored source.id session snapshot.sequence)
    match stored with
    | some row =>
      if row.runId ≠ source.runId then
        check (invalid "duplicate snapshot sequence contains conflicting state")
      else
        match serde.snapshot row.snapshotJson with
        | none => throw .json
        | some previous =>
          if previous ≠ snapshot then
            check (invalid "duplicate snapshot sequence contains conflicting state")
          else ingestSnapshots session committed accepted (index + 1) rest
    | none =>
      if snapshot.sequence < committed then
        check (invalid "snapshot sequence regresses behind its committed cursor")
      else do
        storeSnapshot serde source session (now index) snapshot
        ingestSnapshots session committed (accepted + 1) (index + 1) rest

/-- The checks made before the database is read. -/
def checkPage (descriptor : SnapshotDescriptor) (page : SnapshotHistoryResponse) :
    Except EngineError Unit := do
  (validateSnapshotDescriptor descriptor).mapError .protocol
  (validateSnapshotHistoryResponse page).mapError .protocol
  reject (descriptor.sourceSessionId ≠ page.sourceSessionId) (.protocol .sessionMismatch)
  reject (descriptor.runId ≠ source.runId ∨ descriptor.attemptId ≠ source.attemptId ∨
    descriptor.role ≠ source.role)
    (.invalidInput "snapshot descriptor identity does not match registration")
  checkIds [source.id] 1
  checkIds [source.runId] 1

/-- The gap and cursor statements after at least one snapshot was accepted. -/
def advance (committed : ℕ) (page : SnapshotHistoryResponse) : Script Database EngineError Unit := do
  if page.oldestSequence > committed then
    modify (addGap ⟨source.id, page.sourceSessionId, committed, page.oldestSequence,
      now page.snapshots.length⟩)
  else pure ()
  modify (upsertCursor ⟨source.id, page.sourceSessionId, max committed page.nextSequence,
    now (page.snapshots.length + 1)⟩)

def ingestPage (descriptor : SnapshotDescriptor) (page : SnapshotHistoryResponse) :
    Script Database EngineError ℕ := do
  check (checkPage source descriptor page)
  let committed ← read (cursor source.id page.sourceSessionId)
  check (checkContinuity committed page)
  let accepted ← ingestSnapshots serde now source page.sourceSessionId committed 0 0 page.snapshots
  if accepted = 0 then pure 0
  else do
    advance now source committed page
    pure accepted

end Page

/-! ## Ingestion of a batch -/

/-- One page of a batch, with its clock readings. -/
structure Delivery where
  source : Source
  descriptor : SnapshotDescriptor
  page : SnapshotHistoryResponse
  now : ℕ → ℤ

/-- The ingestion of one page of a batch. -/
def Delivery.ingest (serde : Serde) (delivery : Delivery) : Script Database EngineError ℕ :=
  ingestPage serde delivery.now delivery.source delivery.descriptor delivery.page

/-- The loop of a batch: one savepoint for every page, released on success and rolled back on
failure. -/
def ingestPages (serde : Serde) :
    List Delivery → Script (Connection Database) EngineError (List (Except EngineError ℕ))
  | [] => pure []
  | delivery :: rest => do
    let result ← guarded (delivery.ingest serde)
    let results ← ingestPages serde rest
    pure (result :: results)

/-- `ingest_batch_timed`: the pages are ingested in one transaction, which commits. -/
def ingestBatch (serde : Serde) (pages : List Delivery) (db : Database) :
    Except EngineError (List (Except EngineError ℕ)) × Database :=
  let (result, connection) := (do
    savepoint
    let results ← ingestPages serde pages
    release
    pure results) ⟨db, []⟩
  (result, connection.current)

/-! ## Cursors -/

structure PersistedCursorRequest where
  runId : String
  sourceId : String
  sourceSessionId : String
  nextSequence : ℕ

structure PersistedCursorResponse where
  runId : String
  sourceId : String
  sourceSessionId : String
  persistedNextSequence : ℕ
  complete : Bool
  hasGaps : Bool
deriving DecidableEq

def persistedCursor (request : PersistedCursorRequest) (db : Database) :
    Except EngineError PersistedCursorResponse := do
  checkIds [request.runId, request.sourceId, request.sourceSessionId] 3
  reject (request.nextSequence > I64_MAX)
    (.invalidInput "cursor exceeds signed 64-bit range")
  let persisted := db.cursor request.sourceId request.sourceSessionId
  let gaps := db.gaps.any fun row ↦ row.sourceId = request.sourceId ∧
    row.sourceSessionId = request.sourceSessionId ∧ row.expectedSequence < request.nextSequence
  return {
    runId := request.runId
    sourceId := request.sourceId
    sourceSessionId := request.sourceSessionId
    persistedNextSequence := persisted
    complete := decide (persisted ≥ request.nextSequence) && !gaps
    hasGaps := gaps }

end Rvx.Engine
