import Mathlib.Data.List.ModifyLast
import Rvx.Engine.SnapshotStore
import Rvx.Lib.StableSort

/-!
# Chart queries

A query reads the chart index in one transaction.  It selects observations by run, source and a
range on one axis, joins them with their indexed numbers under the requested paths, and answers with
one series for every source and path.  A path that was skipped somewhere in the selection makes the
query fail, so that a missing index entry is not reported as a missing number.
-/

namespace Rvx.Engine

open Core Check StableSort

def MAX_SNAPSHOT_QUERY_RUNS : ℕ := 64
def MAX_SNAPSHOT_QUERY_PATHS : ℕ := 64
def MAX_SNAPSHOT_SOURCE_IDS : ℕ := 256
def MAX_SNAPSHOT_QUERY_POINTS : ℕ := 10000
def MAX_QUERY_SCAN_ROWS : ℕ := 100000
def MAX_QUERY_SCAN_BYTES : ℕ := 256 * 1024 * 1024
def MAX_QUERY_OUTPUT_POINTS : ℕ := 100000
def PAGE_ENVELOPE_RESERVE : ℕ := 16 * 1024

structure SnapshotQueryRequest where
  runIds : List String
  paths : List String
  sourceIds : List String
  axis : String
  fromBound : Option ℤ
  toBound : Option ℤ
  maxPoints : ℕ

structure SnapshotQuerySeries where
  runId : String
  sourceId : String
  path : String
  snapshotIds : List ℕ
  sourceSessionIds : List String
  sequences : List ℕ
  axes : List ℤ
  observedAtNs : List ℤ
  values : List (Option ℚ)
deriving DecidableEq

structure SnapshotQueryResponse where
  axis : String
  series : List SnapshotQuerySeries
deriving DecidableEq

/-- Text formatting: the debug form of a string and the length of an encoded response. -/
structure Formatting where
  debug : String → String
  encodedLength : SnapshotQueryResponse → ℕ

/-! ## The request -/

/-- `validate_range`. -/
def validateRange : (fromBound toBound : Option ℤ) → Except EngineError Unit
  | some a, some b => reject (a > b) (.invalidInput "from must not exceed to")
  | _, _ => .ok ()

def checkQuery (request : SnapshotQueryRequest) : Except EngineError Unit := do
  checkIds request.runIds MAX_SNAPSHOT_QUERY_RUNS
  checkIds request.sourceIds MAX_SNAPSHOT_SOURCE_IDS
  reject (request.runIds = [] ∨ request.paths = [] ∨
    request.paths.length > MAX_SNAPSHOT_QUERY_PATHS)
    (.invalidInput "query requires 1..64 run_ids and 1..64 paths")
  reject (request.maxPoints = 0 ∨ request.maxPoints > MAX_SNAPSHOT_QUERY_POINTS)
    (.invalidInput "max_points must be 1..10000")
  checkIds [request.axis] 1
  request.paths.forM fun path ↦ (validateSnapshotPointer path).mapError .protocol
  reject (¬ request.paths.Nodup) (.invalidInput "duplicate query paths")
  validateRange request.fromBound request.toBound

/-! ## Selecting observations -/

/-- A value between two optional bounds. -/
def within (lower upper : Option ℤ) (value : ℤ) : Bool :=
  (lower.all fun bound ↦ bound ≤ value) && upper.all fun bound ↦ value ≤ bound

/-- The checked arithmetic of `i64`. -/
def checkedI64 (value : ℤ) (overflow : String) : Except EngineError ℤ :=
  if -2 ^ 63 ≤ value ∧ value < 2 ^ 63 then .ok value else invalid overflow

/-- The observation times of one run that an elapsed range selects. -/
structure ElapsedRange where
  runId : String
  lower : Option ℤ
  upper : Option ℤ

/-- `baseline.checked_add(bound)` of an optional bound. -/
def absoluteBound (baseline : ℤ) : Option ℤ → Except EngineError (Option ℤ)
  | none => .ok none
  | some bound =>
    (checkedI64 (baseline + bound) "elapsed range overflows observation time i64").map some

/-- The ranges of the runs that have a start. -/
def elapsedRanges (request : SnapshotQueryRequest) (chart : ChartIndex) :
    List String → Except EngineError (List ElapsedRange)
  | [] => .ok []
  | run :: rest =>
    match Table.lookup RunRow.runId run chart.runs with
    | none => elapsedRanges request chart rest
    | some row => do
      let lower ← absoluteBound row.firstObservedAtNs request.fromBound
      let upper ← absoluteBound row.firstObservedAtNs request.toBound
      let ranges ← elapsedRanges request chart rest
      return ⟨run, lower, upper⟩ :: ranges

namespace SnapshotQueryRequest

/-- The clauses over the identifiers. -/
def inScope (request : SnapshotQueryRequest) (run source : String) : Bool :=
  decide (run ∈ request.runIds) &&
    (decide (request.sourceIds = []) || decide (source ∈ request.sourceIds))

/-- The request bounds its axis. -/
def isBounded (request : SnapshotQueryRequest) : Bool :=
  request.fromBound.isSome || request.toBound.isSome

/-- The clause over the axis. -/
def selectsAxis (request : SnapshotQueryRequest) (chart : ChartIndex)
    (ranges : List ElapsedRange) (row : SnapshotRow) : Bool :=
  if request.axis = "wall_time" then within request.fromBound request.toBound row.observedAtNs
  else if request.axis = "elapsed" then
    !request.isBounded || ranges.any fun range ↦
      decide (row.runId = range.runId) && within range.lower range.upper row.observedAtNs
  else chart.axes.any fun axis ↦ decide (axis.snapshotId = row.id ∧ axis.name = request.axis) &&
    within request.fromBound request.toBound axis.value

/-- The `WHERE` clause over the snapshots. -/
def selects (request : SnapshotQueryRequest) (chart : ChartIndex) (ranges : List ElapsedRange)
    (row : SnapshotRow) : Bool :=
  request.inScope row.runId row.sourceId && request.selectsAxis chart ranges row &&
    chart.observations.any fun observation ↦ observation.snapshotId = row.id

end SnapshotQueryRequest

/-- `ORDER BY run_id,source_id,observed_at_ns,id`. -/
def scanOrder (row : SnapshotRow) : String ×ₗ String ×ₗ ℤ ×ₗ ℕ :=
  toLex (row.runId, toLex (row.sourceId, toLex (row.observedAtNs, row.id)))

/-- The selected observations in their order, one more than may be scanned. -/
def scannedRows (request : SnapshotQueryRequest) (chart : ChartIndex) (ranges : List ElapsedRange)
    (db : Database) : List SnapshotRow :=
  (sortOn scanOrder (db.snapshots.filter (request.selects chart ranges))).take
    (MAX_QUERY_SCAN_ROWS + 1)

/-! ## Fields in scope -/

def fieldKey (run source path : String) : String ×ₗ String ×ₗ String :=
  toLex (run, toLex (source, path))

structure FieldScope where
  known : OrderedMap (String ×ₗ String ×ₗ String) ℕ
  discovered : OrderedSet String
  bytes : ℕ

/-- The indexed fields of the selected sources under the requested paths, one more than allowed. -/
def scopedFields (request : SnapshotQueryRequest) (chart : ChartIndex) : List FieldRow :=
  (chart.fields.filter fun row ↦
    request.inScope row.runId row.sourceId && decide (row.path ∈ request.paths)).take 1000001

/-- One turn of the loop over the fields. -/
def FieldScope.read (scope : FieldScope) (row : FieldRow) : Except EngineError FieldScope := do
  let bytes := scope.bytes +
    (row.path.utf8ByteSize + row.runId.utf8ByteSize + row.sourceId.utf8ByteSize + 128)
  reject (bytes > MAX_QUERY_SCAN_BYTES)
    (.invalidInput "snapshot field scope exceeds query byte budget")
  let known := scope.known.insert (fieldKey row.runId row.sourceId row.path) row.firstSnapshotId
  reject (known.size > 1000000) (.invalidInput "snapshot field scope exceeds query budget")
  return ⟨known, OrderedSet.insert row.path scope.discovered, bytes⟩

/-- Every requested path must be indexed for some selected source. -/
def checkDiscovered (format : Formatting) (request : SnapshotQueryRequest) (scope : FieldScope) :
    Except EngineError Unit :=
  request.paths.forM fun path ↦ reject (path ∉ scope.discovered) (.invalidInput ("field " ++
    format.debug path ++ " is not an indexed numeric field in the selected sources/runs"))

/-! ## The join -/

structure JoinedRow where
  row : SnapshotRow
  firstObservedAtNs : ℤ
  axis : Option ℤ
  exclusionsJson : String
  /-- `v.path` and `v.value`. -/
  cell : Option (String × ℚ)

/-- The indexed numbers of a snapshot under the requested paths, `ORDER BY path`. -/
def cellsOf (request : SnapshotQueryRequest) (chart : ChartIndex) (id : ℕ) : List (String × ℚ) :=
  sortOn Prod.fst ((chart.values.filter fun value ↦
    value.snapshotId = id ∧ value.path ∈ request.paths).map fun value ↦ (value.path, value.value))

/-- A snapshot joined with its run, its observation and the requested axis. -/
def joinObservation (request : SnapshotQueryRequest) (chart : ChartIndex) (row : SnapshotRow) :
    Option JoinedRow :=
  match Table.lookup RunRow.runId row.runId chart.runs,
    Table.lookup ChartIndex.observationTable.key row.id chart.observations with
  | some run, some observation =>
    let axis := Table.lookup ChartIndex.axisTable.key (row.id, request.axis) chart.axes
    some ⟨row, run.firstObservedAtNs, axis.map AxisRow.value, observation.exclusionsJson, none⟩
  | _, _ => none

/-- The rows of the join that belong to one snapshot: one for each number, or one without. -/
def joinRow (request : SnapshotQueryRequest) (chart : ChartIndex) (row : SnapshotRow) :
    List JoinedRow :=
  match joinObservation request chart row with
  | none => []
  | some joined =>
    match cellsOf request chart row.id with
    | [] => [joined]
    | cells => cells.map fun cell ↦ { joined with cell := some cell }

/-! ## Reading the join -/

structure Projected where
  id : ℕ
  session : String
  sequence : ℕ
  axis : ℤ
  observed : ℤ
  exclusions : List String
  values : List (Option ℚ)
deriving DecidableEq

/-- Match skipped discovery subtrees so a query cannot invent nulls for unindexed fields. -/
def Projected.excludes (point : Projected) (path : String) : Bool :=
  point.exclusions.any fun skipped ↦ decide (path = skipped) ||
    (skipped.toList.isPrefixOf path.toList &&
      decide ((path.toList.drop skipped.toList.length).head? = some '/'))

/-- A point whose numbers are still to be filled in. -/
def Projected.start (request : SnapshotQueryRequest) (joined : JoinedRow) (axis : ℤ)
    (exclusions : List String) : Projected where
  id := joined.row.id
  session := joined.row.sourceSessionId
  sequence := joined.row.sequence
  axis := axis
  observed := joined.row.observedAtNs
  exclusions := exclusions
  values := List.replicate request.paths.length none

/-- Write the value column of a joined row. -/
def Projected.fill (request : SnapshotQueryRequest) (cell : String × ℚ) (point : Projected) :
    Projected :=
  { point with values := point.values.set (request.paths.idxOf cell.1) (some cell.2) }

structure Scan where
  groups : OrderedMap (String ×ₗ String) (List Projected)
  rows : ℕ
  bytes : ℕ
  lastId : Option ℕ

/-- The position of a joined row on the requested axis. -/
def axisValue (request : SnapshotQueryRequest) (joined : JoinedRow) :
    Except EngineError (Option ℤ) :=
  if request.axis = "wall_time" then .ok (some joined.row.observedAtNs)
  else if request.axis = "elapsed" then
    (checkedI64 (joined.row.observedAtNs - joined.firstObservedAtNs)
      "elapsed observation time overflows i64").map some
  else .ok joined.axis

namespace Scan

/-- The group a joined row belongs to. -/
def groupKey (row : SnapshotRow) : String ×ₗ String := toLex (row.runId, row.sourceId)

/-- The points of a group, `entry(key).or_default()`. -/
def group (scan : Scan) (key : String ×ₗ String) : List Projected :=
  (scan.groups.get? key).getD []

/-- The budgets of a snapshot that is met for the first time. -/
def count (request : SnapshotQueryRequest) (joined : JoinedRow) (scan : Scan) :
    Except EngineError Scan := do
  let rows := scan.rows + 1
  let bytes := scan.bytes + (joined.row.runId.utf8ByteSize + joined.row.sourceId.utf8ByteSize +
    joined.row.sourceSessionId.utf8ByteSize + 128) + joined.exclusionsJson.utf8ByteSize
  reject (rows > MAX_QUERY_SCAN_ROWS ∨ bytes > MAX_QUERY_SCAN_BYTES)
    (.invalidInput "snapshot query scan budget exceeded; narrow run/source/time filters")
  reject (rows * request.paths.length > MAX_QUERY_OUTPUT_POINTS * 10)
    (.invalidInput "snapshot projection budget exceeded; narrow query")
  return { scan with rows, bytes, lastId := some joined.row.id }

/-- The point of a snapshot that is met for the first time. -/
def place (serde : Serde) (request : SnapshotQueryRequest) (axis : ℤ) (joined : JoinedRow)
    (scan : Scan) : Except EngineError Scan :=
  match serde.paths joined.exclusionsJson with
  | none => .error .json
  | some exclusions =>
    let key := groupKey joined.row
    let point := Projected.start request joined axis exclusions
    .ok { scan with groups := scan.groups.insert key (scan.group key ++ [point]) }

/-- The value column, written to the newest point of the group. -/
def fill (request : SnapshotQueryRequest) (joined : JoinedRow) (scan : Scan) :
    Except EngineError Scan :=
  match joined.cell with
  | none => .ok scan
  | some cell => do
    let bytes := scan.bytes + (cell.1.utf8ByteSize + 8)
    reject (bytes > MAX_QUERY_SCAN_BYTES)
      (.invalidInput "snapshot query scan byte budget exceeded; narrow query")
    let key := groupKey joined.row
    let points := (scan.group key).modifyLast (Projected.fill request cell)
    return { scan with bytes, groups := scan.groups.insert key points }

/-- One turn of the loop over the joined rows. -/
def read (serde : Serde) (request : SnapshotQueryRequest) (scan : Scan) (joined : JoinedRow) :
    Except EngineError Scan := do
  let axis ← axisValue request joined
  let newSnapshot := scan.lastId ≠ some joined.row.id
  let scan ← if newSnapshot then scan.count request joined else .ok scan
  match axis with
  | none => return scan
  | some axis =>
    if within request.fromBound request.toBound axis then do
      let scan ← if newSnapshot then scan.place serde request axis joined else .ok scan
      scan.fill request joined
    else return scan

end Scan

structure QueryProjection where
  known : OrderedMap (String ×ₗ String ×ₗ String) ℕ
  groups : OrderedMap (String ×ₗ String) (List Projected)

/-- Load the complete bounded index projection of a request. -/
def projection (serde : Serde) (format : Formatting) (request : SnapshotQueryRequest)
    (db : Database) : Except EngineError QueryProjection := do
  checkQuery request
  match db.chart with
  | none => .error .sqlite
  | some chart =>
    let ranges ← if request.axis = "elapsed" ∧ request.isBounded then
      elapsedRanges request chart (OrderedSet.ofList request.runIds).keys else .ok []
    let scope ← (scopedFields request chart).foldlM FieldScope.read
      ⟨OrderedMap.empty, OrderedMap.empty, 0⟩
    checkDiscovered format request scope
    let scan ← ((scannedRows request chart ranges db).flatMap (joinRow request chart)).foldlM
      (Scan.read serde request) ⟨OrderedMap.empty, 0, scope.bytes, none⟩
    return ⟨scope.known, scan.groups⟩

/-! ## Sampling -/

/-- Keep a missing observation between two numeric ones. -/
def retainGap (missing : ℕ → Bool) (positions : List ℕ) (right : ℕ) : List ℕ :=
  let leftIndex := positions.getD (right - 1) 0
  let rightIndex := positions.getD right 0
  if !missing leftIndex && !missing rightIndex then
    match (List.range' (leftIndex + 1) (rightIndex - (leftIndex + 1))).reverse.find? missing with
    | some gap => positions.set (right - 1) gap
    | none => positions
  else positions

/-- Sample actual positions while retaining a missing observation between numeric endpoints. -/
def samplePositions (length count : ℕ) (missing : ℕ → Bool) : List ℕ :=
  let positions := (List.range count).map fun index ↦
    if count = 1 then length - 1 else index * (length - 1) / (count - 1)
  (List.range' 1 (positions.length - 1)).reverse.foldl (retainGap missing) positions

/-! ## The response -/

/-- The order of a series. -/
def Projected.order (point : Projected) : ℤ ×ₗ ℤ ×ₗ ℕ :=
  toLex (point.axis, toLex (point.observed, point.sequence))

structure Output where
  series : List SnapshotQuerySeries
  points : ℕ
  bytes : ℕ

/-- The bytes of the sampled points. -/
def countPoint (bytes : ℕ) (point : Projected) : Except EngineError ℕ := do
  let bytes := bytes + String.utf8Len (quote point.session) + 128
  reject (bytes > MAX_SNAPSHOT_PAGE_BYTES)
    (.invalidInput "snapshot query response exceeds 16 MiB; narrow query")
  return bytes

/-- The series of a source under one path, from its sampled points. -/
def seriesOf (key : String ×ₗ String) (path : String) (index : ℕ) (sampled : List Projected) :
    SnapshotQuerySeries where
  runId := (ofLex key).1
  sourceId := (ofLex key).2
  path := path
  snapshotIds := sampled.map Projected.id
  sourceSessionIds := sampled.map Projected.session
  sequences := sampled.map Projected.sequence
  axes := sampled.map Projected.axis
  observedAtNs := sampled.map Projected.observed
  values := sampled.map fun point ↦ point.values.getD index none

/-- One turn of the loop over the requested paths. -/
def addSeries (request : SnapshotQueryRequest)
    (known : OrderedMap (String ×ₗ String ×ₗ String) ℕ) (key : String ×ₗ String)
    (points : List Projected) (output : Output) (entry : String × ℕ) : Except EngineError Output :=
  let (path, index) := entry
  match known.get? (fieldKey (ofLex key).1 (ofLex key).2 path) with
  | none =>
    if points.any fun point ↦ point.excludes path then
      invalid "selected source has an incomplete field index; select indexed source/fields"
    else .ok output
  | some firstIndexed =>
    if points.any fun point ↦ point.excludes path && decide (point.id < firstIndexed) &&
        (point.values.getD index none).isNone then
      invalid ("field coverage is incomplete in a truncated snapshot index; " ++
        "narrow source/time filters")
    else do
      let count := min points.length request.maxPoints
      reject (output.points + count > MAX_QUERY_OUTPUT_POINTS)
        (.invalidInput "snapshot query output budget exceeded; narrow query")
      let bytes := output.bytes + (String.utf8Len
        (printArray [quote (ofLex key).1, quote (ofLex key).2, quote path]) + 256)
      let positions := samplePositions points.length count fun position ↦
        ((points[position]?).bind fun point ↦ point.values.getD index none).isNone
      let sampled := positions.filterMap fun position ↦ points[position]?
      let bytes ← sampled.foldlM countPoint bytes
      return ⟨output.series ++ [seriesOf key path index sampled], output.points + count, bytes⟩

/-- One turn of the loop over the groups. -/
def addGroup (request : SnapshotQueryRequest)
    (known : OrderedMap (String ×ₗ String ×ₗ String) ℕ) (output : Output)
    (group : (String ×ₗ String) × List Projected) : Except EngineError Output :=
  request.paths.zipIdx.foldlM
    (addSeries request known group.1 (sortOn Projected.order group.2)) output

/-- Project numeric fields without merging observations. -/
def queryPage (serde : Serde) (format : Formatting) (request : SnapshotQueryRequest)
    (db : Database) : Except EngineError SnapshotQueryResponse := do
  let projected ← projection serde format request db
  let output ← projected.groups.entries.foldlM (addGroup request projected.known)
    ⟨[], 0, PAGE_ENVELOPE_RESERVE⟩
  let response := SnapshotQueryResponse.mk request.axis output.series
  reject (format.encodedLength response > MAX_SNAPSHOT_PAGE_BYTES)
    (.invalidInput "snapshot query response exceeds 16 MiB; narrow query")
  return response

end Rvx.Engine
