import Rvx.Engine.ArtifactIndex
import Rvx.Engine.ChartIndex
import Rvx.Engine.Serde

/-!
# The database

The tables of the snapshot store.  Raw tables always exist once a file was opened; the heads table,
the chart index and the artifact index may be missing or belong to an older version.
-/

namespace Rvx.Engine

open Core

structure SnapshotRow where
  id : ℕ
  runId : String
  sourceId : String
  sourceSessionId : String
  sequence : ℕ
  observedAtNs : ℤ
  ingestedAtNs : ℤ
  snapshotJson : String
deriving DecidableEq

structure HeadRow where
  runId : String
  sourceId : String
  snapshotId : ℕ
deriving DecidableEq

structure CursorRow where
  sourceId : String
  sourceSessionId : String
  nextSequence : ℕ
  updatedAtNs : ℤ
deriving DecidableEq

structure GapRow where
  sourceId : String
  sourceSessionId : String
  expectedSequence : ℕ
  oldestSequence : ℕ
  observedAtNs : ℤ
deriving DecidableEq

/-- The committed contents of the database file. -/
structure Database where
  snapshots : List SnapshotRow
  /-- The largest snapshot ID ever assigned. -/
  snapshotSeq : ℕ
  heads : Option (List HeadRow)
  cursors : List CursorRow
  gaps : List GapRow
  chart : Option ChartIndex
  artifacts : Option ArtifactIndex
deriving DecidableEq

/-- A source as it was registered. -/
structure Source where
  id : String
  runId : String
  attemptId : String
  role : String
deriving DecidableEq

namespace Database

/-- A new file. -/
def empty : Database := ⟨[], 0, none, [], [], none, none⟩

/-! ## Statements -/

def headKey (row : HeadRow) : String × String := (row.runId, row.sourceId)

def cursorKey (row : CursorRow) : String × String := (row.sourceId, row.sourceSessionId)

def snapshotKey (row : SnapshotRow) : String × String × ℕ :=
  (row.sourceId, row.sourceSessionId, row.sequence)

/-- The stored cursor of a session, 0 if there is none. -/
def cursor (source session : String) (db : Database) : ℕ :=
  ((Table.lookup cursorKey (source, session) db.cursors).map CursorRow.nextSequence).getD 0

/-- The stored snapshot of a session under a sequence. -/
def stored (source session : String) (sequence : ℕ) (db : Database) : Option SnapshotRow :=
  Table.lookup snapshotKey (source, session, sequence) db.snapshots

/-- `INSERT INTO snapshots`; the row ID is assigned by the statement. -/
def insertSnapshot (row : ℕ → SnapshotRow) (db : Database) : Except EngineError Database :=
  match Table.insertUnique snapshotKey (row (db.snapshotSeq + 1)) db.snapshots with
  | some snapshots => .ok { db with snapshots, snapshotSeq := db.snapshotSeq + 1 }
  | none => .error .sqlite

/-- `INSERT INTO snapshot_heads ... ON CONFLICT(run_id,source_id) DO UPDATE`. -/
def upsertHead (row : HeadRow) (heads : List HeadRow) : List HeadRow :=
  Table.upsert headKey (fun old ↦ { old with snapshotId := row.snapshotId }) row heads

/-- `INSERT INTO snapshot_gaps`. -/
def addGap (row : GapRow) (db : Database) : Database := { db with gaps := db.gaps ++ [row] }

/-- `INSERT INTO snapshot_cursors ... ON CONFLICT DO UPDATE`, which never moves a cursor back. -/
def upsertCursor (row : CursorRow) (db : Database) : Database :=
  { db with
    cursors := Table.upsert cursorKey
      (fun old ↦
        { old with
          nextSequence := max old.nextSequence row.nextSequence
          updatedAtNs := row.updatedAtNs })
      row db.cursors }

section Components

variable {α : Type}

def onHeads (script : Script (List HeadRow) EngineError α) : Script Database EngineError α :=
  script.onSome heads (fun heads db ↦ { db with heads := some heads }) .sqlite

def onChart (script : Script ChartIndex EngineError α) : Script Database EngineError α :=
  script.onSome chart (fun chart db ↦ { db with chart := some chart }) .sqlite

def onArtifacts (script : Script ArtifactIndex EngineError α) : Script Database EngineError α :=
  script.onSome artifacts (fun artifacts db ↦ { db with artifacts := some artifacts }) .sqlite

end Components

/-! ## Views -/

/-- The stored snapshots of a session. -/
def rowsOf (source session : String) (db : Database) : List SnapshotRow :=
  db.snapshots.filter fun row ↦ row.sourceId = source ∧ row.sourceSessionId = session

/-- The sequences stored for a session. -/
def storedSequences (source session : String) (db : Database) : List ℕ :=
  (db.rowsOf source session).map SnapshotRow.sequence

/-- The recorded gaps of a session. -/
def gapsOf (source session : String) (db : Database) : List GapRow :=
  db.gaps.filter fun row ↦ row.sourceId = source ∧ row.sourceSessionId = session

/-- The intervals recorded as lost for a session. -/
def lostIntervals (source session : String) (db : Database) : List (ℕ × ℕ) :=
  (db.gapsOf source session).map fun row ↦ (row.expectedSequence, row.oldestSequence)

end Database

end Rvx.Engine
