import Rvx.Engine.SnapshotStore
import Rvx.Lib.Runs

/-!
# The life of a store

Opening a file is a sequence of transactions: create the raw tables and seed missing heads, reset
an outdated chart index, rebuild it in chunks, repair the heads by two statements, reset and
rebuild the artifact index.  The process may stop after any of them; the next open starts over on
what was committed.  An open store ingests batches, and a closed file may be used by an older
version of the software, which leaves derived tables of its own.
-/

namespace Rvx.Engine

open Core Script Database

/-! ## The transactions of an open -/

/-- `SELECT run_id,source_id,MAX(id) ... GROUP BY run_id,source_id`. -/
def maxHeads (rows : List SnapshotRow) : List HeadRow :=
  rows.foldl (fun heads row ↦
    Table.upsert headKey (fun old ↦ { old with snapshotId := max old.snapshotId row.id })
      ⟨row.runId, row.sourceId, row.id⟩ heads) []

/-- The first transaction creates the tables and seeds the heads if they did not exist. -/
def createTables (db : Database) : Database :=
  { db with heads := some (db.heads.getD (maxHeads db.snapshots)) }

/-- Snapshots that are not in the index yet, in ID order, 64 at a time. -/
def pendingRows (last : ℕ) (db : Database) : List SnapshotRow :=
  (db.snapshots.filter fun row ↦ last < row.id).take 64

section Chunk

variable {σ : Type} (serde : Serde)
  (insert : ℕ → String → String → StateSnapshot → Script σ EngineError Unit)

/-- Decode one stored row and insert it into an index. -/
def indexRow (row : SnapshotRow) : Script σ EngineError Unit :=
  match serde.snapshot row.snapshotJson with
  | none => throw .json
  | some snapshot => insert row.id row.runId row.sourceId snapshot

/-- The loop of one rebuild transaction, returning the number of rows it indexed.  The chart index
also stops right after the row that fills the budget. -/
def indexRows (stopWhenFull : Bool) (count bytes : ℕ) :
    List SnapshotRow → Script σ EngineError ℕ
  | [] => pure count
  | row :: rest =>
    let length := row.snapshotJson.utf8ByteSize
    if count > 0 ∧ bytes + length > MAX_SNAPSHOT_PAGE_BYTES then pure count
    else do
      indexRow serde insert row
      if stopWhenFull ∧ bytes + length ≥ MAX_SNAPSHOT_PAGE_BYTES then pure (count + 1)
      else indexRows stopWhenFull (count + 1) (bytes + length) rest

end Chunk

/-- One rebuild transaction of the chart index. -/
def chartChunk (serde : Serde) : Script Database EngineError ℕ := do
  let last ← onChart (read ChartIndex.lastId)
  let rows ← read (pendingRows last)
  onChart (indexRows serde ChartIndex.insert true 0 0 rows)

/-- One rebuild transaction of the artifact index. -/
def artifactChunk (serde : Serde) : Script Database EngineError ℕ := do
  let last ← onArtifacts (read ArtifactIndex.lastId)
  let rows ← read (pendingRows last)
  onArtifacts (indexRows serde (ArtifactIndex.insert serde.artifactMessage) false 0 0 rows)

/-- The IDs of the indexed observations. -/
def observationIds (db : Database) : List ℕ :=
  (db.chart.elim [] ChartIndex.observations).map ObservationRow.snapshotId

/-- `DELETE FROM snapshot_heads WHERE snapshot_id NOT IN (SELECT ... chart_observations)`. -/
def deleteHeads (db : Database) : Database :=
  let pruned := db.heads.map fun heads ↦
    heads.filter fun head ↦ head.snapshotId ∈ observationIds db
  { db with heads := pruned }

/-- `INSERT INTO snapshot_heads SELECT ... MAX(s.id) ... JOIN chart_observations ... ON CONFLICT`. -/
def insertHeads (db : Database) : Database :=
  let latest := maxHeads (db.snapshots.filter fun row ↦ row.id ∈ observationIds db)
  let merged := db.heads.map fun heads ↦
    latest.foldl (fun heads head ↦ upsertHead head heads) heads
  { db with heads := merged }

/-- Where an open stands, with the two flags the repair of the heads depends on. -/
inductive Phase where
  | closed
  | chartVersion (hasHeads : Bool)
  | chartChunks (hasHeads rebuilt : Bool)
  | headsDelete
  | headsInsert
  | artifactVersion
  | artifactChunks
  | ready
deriving DecidableEq

/-- The file and the process that has it open. -/
structure Store where
  db : Database
  phase : Phase
deriving DecidableEq

/-- The next transaction of an open; an error ends the open and rolls its transaction back. -/
def continueOpen (serde : Serde) (store : Store) : Option Store :=
  match store.phase with
  | .closed => none
  | .chartVersion hasHeads =>
    if store.db.chart.map ChartIndex.version = some INDEX_VERSION then
      some { store with phase := .chartChunks hasHeads false }
    else some ⟨{ store.db with chart := some .empty }, .chartChunks hasHeads true⟩
  | .chartChunks hasHeads rebuilt =>
    match (chartChunk serde).atomically store.db with
    | (.error _, db) => some ⟨db, .closed⟩
    | (.ok 0, db) => some ⟨db, if rebuilt ∨ ¬ hasHeads then .headsDelete else .artifactVersion⟩
    | (.ok (_ + 1), db) => some { store with db }
  | .headsDelete => some ⟨deleteHeads store.db, .headsInsert⟩
  | .headsInsert => some ⟨insertHeads store.db, .artifactVersion⟩
  | .artifactVersion =>
    if store.db.artifacts.map ArtifactIndex.version = some VERSION then
      some { store with phase := .artifactChunks }
    else some ⟨{ store.db with artifacts := some .empty }, .artifactChunks⟩
  | .artifactChunks =>
    match (artifactChunk serde).atomically store.db with
    | (.error _, db) => some ⟨db, .closed⟩
    | (.ok 0, db) => some ⟨db, .ready⟩
    | (.ok (_ + 1), db) => some { store with db }
  | .ready => none

/-! ## Derived tables of older versions -/

/-- What an older version of the software may leave in a file. -/
structure Older where
  heads : Option (List HeadRow)
  chart : Option ChartIndex
  artifacts : Option ArtifactIndex

/-- Heads under a primary key, each pointing at a stored snapshot of its own run and source. -/
def HeadsValid (rows : List SnapshotRow) (heads : List HeadRow) : Prop :=
  (heads.map headKey).Nodup ∧ ∀ head ∈ heads, ∃ row ∈ rows,
    row.id = head.snapshotId ∧ row.runId = head.runId ∧ row.sourceId = head.sourceId

instance (rows : List SnapshotRow) (heads : List HeadRow) : Decidable (HeadsValid rows heads) :=
  inferInstanceAs (Decidable (_ ∧ _))

/-- The chart index is missing or of another version. -/
def ChartOutdated (chart : Option ChartIndex) : Prop :=
  chart.map ChartIndex.version ≠ some INDEX_VERSION

instance (chart : Option ChartIndex) : Decidable (ChartOutdated chart) :=
  inferInstanceAs (Decidable (_ ≠ _))

/-- The artifact index is missing or of another version. -/
def ArtifactsOutdated (artifacts : Option ArtifactIndex) : Prop :=
  artifacts.map ArtifactIndex.version ≠ some VERSION

instance (artifacts : Option ArtifactIndex) : Decidable (ArtifactsOutdated artifacts) :=
  inferInstanceAs (Decidable (_ ≠ _))

/-- An older version replaces indexes only by indexes of its own version; heads of its own come
with a chart index of its own, and the heads table may be missing altogether. -/
def Older.Possible (older : Older) (db : Database) : Prop :=
  (older.chart = db.chart ∨ ChartOutdated older.chart) ∧
    (older.artifacts = db.artifacts ∨ ArtifactsOutdated older.artifacts) ∧
    (older.heads = db.heads ∨ older.heads = none ∨
      (ChartOutdated older.chart ∧ HeadsValid db.snapshots (older.heads.getD [])))

instance (older : Older) (db : Database) : Decidable (older.Possible db) :=
  inferInstanceAs (Decidable (_ ∧ _ ∧ _))

/-! ## Steps -/

inductive Action where
  /-- Start an open: its first transaction. -/
  | beginOpen
  /-- Run the next transaction of the open. -/
  | continueOpen
  /-- The process stops, or the store is closed. -/
  | stop
  | ingestBatch (pages : List Delivery)
  | useOlder (older : Older)

def Store.init : Store := ⟨.empty, .closed⟩

def Store.step (serde : Serde) (store : Store) : Action → Option Store
  | .beginOpen =>
    if store.phase = .closed then
      some ⟨createTables store.db, .chartVersion store.db.heads.isSome⟩
    else none
  | .continueOpen => Engine.continueOpen serde store
  | .stop => some { store with phase := .closed }
  | .ingestBatch pages =>
    if store.phase = .ready then some { store with db := (Engine.ingestBatch serde pages store.db).2 }
    else none
  | .useOlder older =>
    if store.phase = .closed ∧ older.Possible store.db then
      some { store with db :=
        { store.db with
          heads := older.heads, chart := older.chart, artifacts := older.artifacts } }
    else none

/-- The store after a sequence of steps. -/
def Store.run (serde : Serde) (actions : List Action) (store : Store) : Option Store :=
  actions.foldlM (Store.step serde) store

/-- What one step preserves holds after every run. -/
theorem Store.run_induction {serde : Serde} (property : Store → Prop)
    (hstep : ∀ {store action store'}, property store → store.step serde action = some store' →
      property store')
    {actions : List Action} {store store' : Store} (hstore : property store)
    (h : store.run serde actions = some store') : property store' :=
  Runs.invariant property hstep hstore h

end Rvx.Engine
