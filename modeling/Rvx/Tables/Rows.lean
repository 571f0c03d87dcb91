import Rvx.Lib.KeyedTable
import Rvx.Tables.Scan

/-!
# Pages of table rows

A read loads one immutable snapshot of every selected source: the latest ones, or those the request
pins.  All records are filtered and ordered before a page of them is rendered.
-/

namespace Rvx.Tables

open Core Engine Check StableSort

/-! ## Validation -/

def uniqueIds (ids : List String) (maximum : ℕ) : Except EngineError Unit := do
  checkIds ids maximum
  reject (¬ ids.Nodup) (.invalidInput "duplicate identifiers are not allowed")

/-- Checked before any registration is read. -/
def validateSelection (runs sources : List String) : Except EngineError Unit := do
  uniqueIds runs MAX_SNAPSHOT_QUERY_RUNS
  uniqueIds sources MAX_SNAPSHOT_SOURCE_IDS
  reject (runs = []) (.invalidInput "tables require 1..64 run_ids")

def validatePointer (path : String) : Except EngineError Unit :=
  (validateSnapshotPointer path).mapError .protocol

def validateColumn (path : String) : Except EngineError Unit :=
  if path = "$key" ∨ path = "$value" then .ok () else validatePointer path

def validateRowsLimit (request : TableRowsRequest) (maximum : ℕ) : Except EngineError Unit := do
  validatePointer request.path
  reject (request.limit = 0 ∨ request.limit > maximum)
    (.invalidInput ("table limit must be 1.." ++ toString maximum))
  reject (request.offset > MAX_TABLE_NODES)
    (.invalidInput "table offset must be at most 1000000")
  request.columns.toList.forM fun columns ↦ do
    reject (columns = [] ∨ columns.length > MAX_COLUMNS)
      (.invalidInput "columns must contain 1..128 column pointers")
    reject (¬ columns.Nodup) (.invalidInput "duplicate columns are not allowed")
    columns.forM validateColumn
  reject (request.filters.length > 32)
    (.invalidInput "at most 32 table filters are supported")
  request.filters.forM fun filter ↦ do
    validateColumn filter.path
    reject (filter.value.utf8ByteSize > 4096)
      (.invalidInput "table filter value exceeds 4096 bytes")
  request.sort.toList.forM fun sort ↦ validateColumn sort.path
  reject (request.search.any fun text ↦ 4096 < text.utf8ByteSize)
    (.invalidInput "table search exceeds 4096 bytes")

def validateRows (request : TableRowsRequest) : Except EngineError Unit :=
  validateRowsLimit request MAX_SNAPSHOT_HISTORY_LIMIT

/-! ## Loading -/

/-- The id a pinned text is, if it is the canonical text of a positive `i64`. -/
def parsePinned (text : String) : Except EngineError ℤ :=
  match (parseI64 text.toList).filter fun n ↦ 0 < n ∧ printInt n = text.toList with
  | some n => .ok n
  | none => .error (.invalidInput "snapshot_ids must be canonical positive decimal strings")

def pinnedIds (pinned : List String) : Except EngineError (List ℤ) := do
  uniqueIds pinned MAX_SNAPSHOT_SOURCE_IDS
  reject (pinned = []) (.invalidInput "snapshot_ids must be nonempty when supplied")
  pinned.mapM parsePinned

/-- The ids of the latest snapshots, source by source. -/
def headIds (runtime : Runtime) (db : Database) (requireAll : Bool) :
    List Source → Except EngineError (List ℤ)
  | [] => return []
  | source :: rest => do
    let heads ← match db.heads with
      | none => .error .sqlite
      | some heads => pure heads
    match Table.lookup Database.headKey (source.runId, source.id) heads with
    | some head => return (head.snapshotId : ℤ) :: (← headIds runtime db requireAll rest)
    | none =>
      reject (requireAll = true)
        (.invalidInput ("Source " ++ runtime.debug source.id ++ " has no completed snapshot"))
      headIds runtime db requireAll rest

/-- What has been loaded so far. -/
structure Loading where
  bytes : ℕ
  seen : OrderedSet String
  result : List StoredSnapshot

section Load

variable (serde : Serde) (sources : List Source) (db : Database)

def loadSnapshot (state : Loading) (id : ℤ) : Work Loading := do
  match db.snapshots.find? fun row ↦ (row.id : ℤ) = id with
  | none =>
    Script.check (.error (.invalidInput ("unknown snapshot ID " ++ String.ofList (printInt id))))
  | some row =>
    Script.check (reject (¬ sources.any fun source ↦
        source.id = row.sourceId && source.runId = row.runId)
      (.invalidInput ("snapshot " ++ String.ofList (printInt id) ++
        " does not belong to selected run_ids/source_ids")))
    Script.check (reject (row.sourceId ∈ state.seen)
      (.invalidInput "snapshot_ids must contain exactly one snapshot per selected Source"))
    Script.check (reject (state.bytes + row.snapshotJson.utf8ByteSize > MAX_TABLE_SCAN_BYTES)
      (.invalidInput "table snapshot scan exceeds 64 MiB; narrow run_ids/source_ids"))
    let snapshot ← Script.check (fromRow serde row)
    WorkBudget.tree snapshot.snapshot.state.value
    return ⟨state.bytes + row.snapshotJson.utf8ByteSize, OrderedSet.insert row.sourceId state.seen,
      state.result ++ [snapshot]⟩

def loadSnapshots (ids : List ℤ) : Work Loading :=
  ids.foldlM (loadSnapshot serde sources db) ⟨0, OrderedMap.empty, []⟩

/-- Snapshots are ordered by run and source. -/
def sourceKey (snapshot : StoredSnapshot) : String ×ₗ String :=
  toLex (snapshot.runId, snapshot.sourceId)

def tableSnapshots (runtime : Runtime) (pinned : Option (List String)) (requireAll : Bool) :
    Except EngineError (List StoredSnapshot) := do
  let ids ← match pinned with
    | some pinned => pinnedIds pinned
    | none => headIds runtime db requireAll sources
  let loaded ← (loadSnapshots serde sources db ids WorkBudget.empty).1
  reject (requireAll = true ∧ (loaded.result = [] ∨ loaded.seen.size ≠ sources.length))
    (.invalidInput ("table rows require one completed snapshot for every selected Source; " ++
      "select source_ids explicitly"))
  return sortOn sourceKey loaded.result

end Load

/-! ## The page -/

/-- Where a record is: its source, and its position in the collection. -/
def Record.place (record : Record) : String ×ₗ String ×ₗ ℕ :=
  toLex (record.snapshot.runId, toLex (record.snapshot.sourceId, record.position))

/-- Reversed for a descending sort. -/
def directed (direction : TableSortDirection) (order : Ordering) : Ordering :=
  if direction = .desc then order.swap else order

/-- The order of a sorted table; records carry their keys. -/
def rowOrder (direction : TableSortDirection) (a b : Record × SortKey) : Ordering :=
  (directed direction (a.2.compare b.2)).then (Ord.compare a.1.place b.1.place)

/-- The records of the page, each standing for the index the program keeps. -/
def tablePageOrder (runtime : Runtime) (request : TableRowsRequest) (rows : List Record) :
    Work (List Record) := do
  let start := min request.offset rows.length
  let stop := min (start + request.limit) rows.length
  match request.sort with
  | none => return (rows.take stop).drop start
  | some sort =>
    Script.forEach rows fun row ↦
      WorkBudget.text (cellBytes (row.cell sort.path) * (2 * levels rows.length + 2))
    if start = stop then
      return []
    else
      let keyed := rows.map fun row ↦ (row, SortKey.new (row.cell sort.path))
      return (Selection.selectPage runtime.slices (rowOrder sort.direction) request.offset
        request.limit keyed).map Prod.fst

/-- The page of records that were loaded. -/
def readRows (runtime : Runtime) (request : TableRowsRequest) (sources : List Source)
    (snapshots : List StoredSnapshot) : Work TableRowsResponse := do
  let scanned ← records runtime request .rows snapshots sources
  let page ← tablePageOrder runtime request scanned.rows
  Script.check (render scanned.rows.length scanned.columns scanned.snapshots request.offset
    request.limit page)

def tableRows (runtime : Runtime) (serde : Serde) (request : TableRowsRequest)
    (sources : List Source) (db : Database) : Except EngineError TableRowsResponse := do
  validateRows request
  let snapshots ← tableSnapshots serde sources db runtime request.snapshotIds true
  (readRows runtime request sources snapshots WorkBudget.empty).1

/-! ## Registrations -/

/-- The runs and sources a read finds registered. -/
structure Registrations where
  runs : List String
  sources : KeyedTable Source.id

def Source.registrationKey (source : Source) : String ×ₗ String := toLex (source.runId, source.id)

/-- The selected sources: those of the runs, or the listed ones of them. -/
def Registrations.selected (registrations : Registrations) (runs ids : List String) :
    List Source :=
  (sortOn Source.registrationKey (registrations.sources.rows.filter fun source ↦
    source.runId ∈ runs ∧ (ids = [] ∨ source.id ∈ ids))).take 257

def Registrations.tableSources (runtime : Runtime) (registrations : Registrations)
    (runs ids : List String) : Except EngineError (List Source) := do
  runs.forM fun run ↦
    reject (run ∉ registrations.runs) (.invalidInput ("unknown Run " ++ runtime.debug run))
  let sources := registrations.selected runs ids
  reject (sources.length > MAX_SNAPSHOT_SOURCE_IDS)
    (.invalidInput "table selection exceeds 256 Sources; narrow run_ids/source_ids")
  reject (ids.any fun id ↦ !sources.any fun source ↦ source.id = id)
    (.invalidInput "unknown source_ids or Source does not belong to selected run_ids")
  return sources

/-- A read by the engine: the selection is checked and its sources are looked up. -/
def Registrations.readTable {α : Type} (runtime : Runtime) (registrations : Registrations)
    (runs ids : List String) (read : List Source → Except EngineError α) :
    Except EngineError α := do
  validateSelection runs ids
  let sources ← registrations.tableSources runtime runs ids
  read sources

def Registrations.tableRows (runtime : Runtime) (serde : Serde) (registrations : Registrations)
    (request : TableRowsRequest) (db : Database) : Except EngineError TableRowsResponse :=
  registrations.readTable runtime request.runIds request.sourceIds fun sources ↦
    Tables.tableRows runtime serde request sources db

end Rvx.Tables
