import Rvx.Core.StoredSnapshot
import Rvx.Engine.HeadRuns
import Rvx.Engine.PageRows
import Rvx.Engine.Query
import Rvx.Lib.Paging

/-!
# Pages of snapshots

The history of a run, newest first, and the latest snapshot of each of its sources.  A page ends at
its limit, before the snapshot that would exceed the response budget, or with the last row.
-/

namespace Rvx.Engine

open Core Check Paging StableSort

structure SnapshotHistoryRequest where
  runId : String
  sourceIds : List String
  beforeId : Option ℤ
  fromBound : Option ℤ
  toBound : Option ℤ
  limit : ℕ

structure SnapshotHistoryPage where
  snapshots : List StoredSnapshot
  nextBeforeId : Option ℤ

structure SnapshotLatestResponse where
  snapshots : List StoredSnapshot
  nextSourceId : Option String

def validatePage (runId : String) (sources : List String) (limit : ℕ) : Except EngineError Unit := do
  checkIds [runId] 1
  checkIds sources MAX_SNAPSHOT_SOURCE_IDS
  reject (limit = 0 ∨ limit > MAX_SNAPSHOT_HISTORY_LIMIT) (.invalidInput "page limit must be 1..256")

def fromRow (serde : Serde) (row : SnapshotRow) : Except EngineError StoredSnapshot :=
  match serde.snapshot row.snapshotJson with
  | none => .error .json
  | some snapshot => .ok ⟨row.id, row.runId, row.sourceId, row.ingestedAtNs, snapshot⟩

/-- A row with the bytes it brings a page to, if they are within the budget. -/
def acceptRow (serde : Serde) (bytes : ℕ) (row : SnapshotRow) :
    Except EngineError (Option (StoredSnapshot × ℕ)) := do
  let snapshot ← fromRow serde row
  let bytes := bytes + (snapshot.encodedLength + 1)
  return if bytes > MAX_SNAPSHOT_PAGE_BYTES then none else some (snapshot, bytes)

/-- The loop over the rows of a page. -/
def page (serde : Serde) (limit : ℕ) (rows : List SnapshotRow) :
    Except EngineError (List StoredSnapshot × Bool) :=
  fill (acceptRow serde) (.invalidInput "stored snapshot exceeds response budget") limit
    PAGE_ENVELOPE_RESERVE [] rows

/-- The `WHERE` clause of the history. -/
def SnapshotHistoryRequest.selects (request : SnapshotHistoryRequest) (row : SnapshotRow) : Bool :=
  decide (row.runId = request.runId) &&
    (decide (request.sourceIds = []) || decide (row.sourceId ∈ request.sourceIds)) &&
    (request.beforeId.all fun id ↦ (row.id : ℤ) < id) &&
    within request.fromBound request.toBound row.observedAtNs

/-- The selected rows, `ORDER BY id DESC`. -/
def historyRows (request : SnapshotHistoryRequest) (db : Database) : List SnapshotRow :=
  sortOn (fun row ↦ OrderDual.toDual row.id) (db.snapshots.filter request.selects)

/-- The checks of `history`. -/
def checkHistory (request : SnapshotHistoryRequest) : Except EngineError Unit := do
  validatePage request.runId request.sourceIds request.limit
  validateRange request.fromBound request.toBound
  reject (request.beforeId.any fun id ↦ id ≤ 0) (.invalidInput "before_id must be positive")

def history (serde : Serde) (request : SnapshotHistoryRequest) (db : Database) :
    Except EngineError SnapshotHistoryPage := do
  checkHistory request
  let (snapshots, more) ← page serde request.limit
    ((historyRows request db).take (request.limit + 1))
  return ⟨snapshots, if more then snapshots.getLast?.map fun snapshot ↦ snapshot.id else none⟩

/-- The checks of `latest`. -/
def checkLatest (request : SnapshotLatestRequest) : Except EngineError Unit := do
  validatePage request.runId request.sourceIds request.limit
  request.afterSourceId.toList.forM fun id ↦ checkIds [id] 1

def latest (serde : Serde) (request : SnapshotLatestRequest) (db : Database) :
    Except EngineError SnapshotLatestResponse := do
  checkLatest request
  let rows ← latestRows request db
  let (snapshots, more) ← page serde request.limit rows
  return ⟨snapshots, if more then snapshots.getLast?.map StoredSnapshot.sourceId else none⟩

/-! ## Filling a page -/

variable {serde : Serde}

/-- The columns the database declares as integers hold values of `i64`. -/
structure SnapshotRow.InRange (row : SnapshotRow) : Prop where
  id : row.id ≤ I64_MAX
  observed : IsI64 row.observedAtNs
  ingested : IsI64 row.ingestedAtNs

instance (row : SnapshotRow) : Decidable row.InRange :=
  decidable_of_iff (row.id ≤ I64_MAX ∧ IsI64 row.observedAtNs ∧ IsI64 row.ingestedAtNs)
    ⟨fun h ↦ ⟨h.1, h.2.1, h.2.2⟩, fun h ↦ ⟨h.id, h.observed, h.ingested⟩⟩

/-- The row is read, and its snapshot can be listed on a page of its own. -/
def Readable (serde : Serde) (row : SnapshotRow) : Prop :=
  ∃ stored, fromRow serde row = .ok stored ∧
    PAGE_ENVELOPE_RESERVE + (stored.encodedLength + 1) ≤ MAX_SNAPSHOT_PAGE_BYTES

/-- Every stored row is readable. -/
theorem Consistent.readable {db : Database} (hserde : serde.RoundTrip) (hdb : Consistent db)
    (hlistable : Listable db) {row : SnapshotRow} (hrow : row ∈ db.snapshots)
    (hrange : row.InRange) : Readable serde row := by
  obtain ⟨snapshot, hwritten⟩ := hdb.rows.written row hrow
  obtain ⟨hrun, hsource⟩ := hlistable.named row hrow
  have hsize : snapshot.encodedLength ≤ MAX_SNAPSHOT_BYTES :=
    (StateSnapshot.valid_iff.mp hwritten.valid).2.2.2.2.2.2.2.2
  have hlength := @StoredSnapshot.encodedLength_le
    ⟨row.id, row.runId, row.sourceId, row.ingestedAtNs, snapshot⟩ hrange.id
    (checkIds_singleton.mp hrun).2 (checkIds_singleton.mp hsource).2 hrange.ingested
  refine ⟨⟨row.id, row.runId, row.sourceId, row.ingestedAtNs, snapshot⟩, ?_, ?_⟩
  · rw [fromRow, hwritten.decode hserde]
  · unfold MAX_SNAPSHOT_BYTES at hsize
    unfold PAGE_ENVELOPE_RESERVE MAX_SNAPSHOT_PAGE_BYTES
    dsimp only at hlength
    omega

instance : Inhabited StoredSnapshot := ⟨⟨0, "", "", 0, ⟨"", 0, 0, 0, .empty, .null⟩⟩⟩

/-- The snapshot a readable row is read as. -/
def storedOf (serde : Serde) (row : SnapshotRow) : StoredSnapshot :=
  (fromRow serde row).toOption.getD default

theorem fromRow_eq_ok {row : SnapshotRow} (h : Readable serde row) {stored : StoredSnapshot} :
    fromRow serde row = .ok stored ↔ stored = storedOf serde row := by
  obtain ⟨read, hread, -⟩ := h
  rw [storedOf, hread]
  exact ⟨fun heq ↦ (Except.ok.inj heq).symm, fun heq ↦ congrArg Except.ok heq.symm⟩

theorem storedOf_id {row : SnapshotRow} (h : Readable serde row) :
    (storedOf serde row).id = row.id ∧ (storedOf serde row).sourceId = row.sourceId := by
  have hread := (fromRow_eq_ok h).mpr rfl
  unfold fromRow at hread
  split at hread
  · simp at hread
  · rw [Except.ok.injEq] at hread
    rw [← hread]
    exact ⟨rfl, rfl⟩

theorem acceptRow_ok {row : SnapshotRow} (h : Readable serde row) (bytes : ℕ) :
    acceptRow serde bytes row =
      .ok (if bytes + ((storedOf serde row).encodedLength + 1) > MAX_SNAPSHOT_PAGE_BYTES then none
        else some (storedOf serde row, bytes + ((storedOf serde row).encodedLength + 1))) := by
  rw [acceptRow, (fromRow_eq_ok h).mpr rfl]
  rfl

/-- A page of readable rows lists a part of them from the front, and tells whether it is all. -/
theorem page_ok {rows : List SnapshotRow} {limit : ℕ} (hrows : ∀ row ∈ rows, Readable serde row)
    (hlimit : 0 < limit) :
    ∃ count, (rows ≠ [] → 0 < count) ∧ page serde limit (rows.take (limit + 1)) =
      .ok ((rows.take count).map (storedOf serde), decide (count < rows.length)) := by
  refine fill_spec ⟨fun row hrow bytes ↦ ?_, fun row hrow ↦ ?_⟩ _ hlimit
  · rw [acceptRow_ok (hrows row hrow)]
    split
    · exact Or.inl rfl
    · exact Or.inr ⟨_, rfl⟩
  · obtain ⟨stored, hread, hsmall⟩ := hrows row hrow
    obtain rfl := (fromRow_eq_ok (hrows row hrow)).mp hread
    rw [acceptRow_ok (hrows row hrow), if_neg (not_lt.mpr hsmall)]
    exact ⟨_, rfl⟩

end Rvx.Engine
