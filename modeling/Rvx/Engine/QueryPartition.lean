import Rvx.Engine.Query

/-!
# Partitioned chart queries

A query whose scan exceeds a budget is answered from windows of its axis.  The span of the selected
observations is cut into windows, a window that exceeds a budget again is cut in two, and the
series of the windows are concatenated and sampled once more.
-/

namespace Rvx.Engine

open Core Check StableSort

def MAX_QUERY_WINDOWS : ℕ := 64

/-- `message.starts_with(..)`. -/
def startsWith (start message : String) : Bool := start.toList.isPrefixOf message.toList

/-- Retry only the native work limits that a narrower observation window can resolve. -/
def scanBudget : EngineError → Bool
  | .invalidInput message => startsWith "snapshot query scan budget exceeded" message ||
      startsWith "snapshot query scan byte budget exceeded" message ||
      startsWith "snapshot projection budget exceeded" message
  | _ => false

/-! ## The span -/

/-- The axis column of a joined observation; the difference of two times is not checked. -/
def axisColumn (request : SnapshotQueryRequest) (joined : JoinedRow) : Option ℤ :=
  if request.axis = "wall_time" then some joined.row.observedAtNs
  else if request.axis = "elapsed" then some (joined.row.observedAtNs - joined.firstObservedAtNs)
  else joined.axis

/-- The axis values of the selected observations. -/
def spanValues (request : SnapshotQueryRequest) (chart : ChartIndex) (rows : List SnapshotRow) :
    List ℤ :=
  (rows.filter fun row ↦ request.inScope row.runId row.sourceId).filterMap fun row ↦
    ((joinObservation request chart row).bind (axisColumn request)).filter
      (within request.fromBound request.toBound)

/-- Reading an integer column; a difference that left `i64` is a real there. -/
def readI64 (value : ℤ) : Except EngineError ℤ :=
  if -2 ^ 63 ≤ value ∧ value < 2 ^ 63 then .ok value else .error .sqlite

/-- Discover the selected observation span without loading full snapshots or projected cells. -/
def queryBounds (request : SnapshotQueryRequest) (db : Database) :
    Except EngineError (ℤ × ℤ × ℕ) :=
  match db.chart with
  | none => .error .sqlite
  | some chart =>
    let values := spanValues request chart db.snapshots
    match values.min?, values.max? with
    | some low, some high => do
      let low ← readI64 low
      let high ← readI64 high
      return (low, high, values.length)
    | _, _ => invalid
        "chart history has no splittable observation range; narrow source/field filters"

/-! ## The windows -/

/-- The number of windows a span is cut into. -/
def windowCount (request : SnapshotQueryRequest) (span : ℤ) (count : ℕ) : ℕ :=
  let pageRows := min (MAX_QUERY_SCAN_ROWS / 2) (MAX_QUERY_OUTPUT_POINTS * 5 / request.paths.length)
  let pages := min (max ((count + pageRows - 1) / pageRows) 2) MAX_QUERY_WINDOWS
  (min (pages : ℤ) span).toNat

/-- The windows in the order they are popped from the stack. -/
def cutWindows (low span : ℤ) (pages : ℕ) : List (ℤ × ℤ) :=
  (List.range pages).map fun (index : ℕ) ↦
    (low + span * index / pages, low + span * (index + 1) / pages - 1)

/-- The request of one window, with its share of the points. -/
def SnapshotQueryRequest.window (request : SnapshotQueryRequest) (span : ℤ) (bounds : ℤ × ℤ) :
    SnapshotQueryRequest :=
  { request with
    fromBound := some bounds.1
    toBound := some bounds.2
    maxPoints :=
      (max ((request.maxPoints * (bounds.2 - bounds.1 + 1) + span - 1) / span) 2).toNat }

/-! ## Merging the windows -/

def SnapshotQuerySeries.key (series : SnapshotQuerySeries) : String ×ₗ String ×ₗ String :=
  fieldKey series.runId series.sourceId series.path

/-- `extend` on every column. -/
def SnapshotQuerySeries.extend (merged part : SnapshotQuerySeries) : SnapshotQuerySeries :=
  { merged with
    snapshotIds := merged.snapshotIds ++ part.snapshotIds
    sourceSessionIds := merged.sourceSessionIds ++ part.sourceSessionIds
    sequences := merged.sequences ++ part.sequences
    axes := merged.axes ++ part.axes
    observedAtNs := merged.observedAtNs ++ part.observedAtNs
    values := merged.values ++ part.values }

structure Merged where
  series : OrderedMap (String ×ₗ String ×ₗ String) SnapshotQuerySeries
  points : ℕ
  bytes : ℕ

namespace Merged

def empty : Merged := ⟨OrderedMap.empty, 0, 0⟩

/-- One turn of the loop over the series of a window. -/
def addPart (merged : Merged) (part : SnapshotQuerySeries) : Except EngineError Merged := do
  let points := merged.points + part.values.length
  reject (points > MAX_QUERY_OUTPUT_POINTS * 2 ∨ merged.bytes > MAX_QUERY_SCAN_BYTES)
    (.invalidInput
      "partitioned chart working set exceeds budget; narrow run/source/field filters")
  let series := ((merged.series.get? part.key).map fun old ↦ old.extend part).getD part
  return { merged with points, series := merged.series.insert part.key series }

/-- The answer of a window. -/
def addPage (format : Formatting) (merged : Merged) (response : SnapshotQueryResponse) :
    Except EngineError Merged :=
  response.series.foldlM addPart
    { merged with bytes := merged.bytes + format.encodedLength response }

end Merged

/-- Read the windows on the stack; `reads` more windows may be read. -/
def readWindows (serde : Serde) (format : Formatting) (request : SnapshotQueryRequest) (span : ℤ)
    (db : Database) : (reads : ℕ) → List (ℤ × ℤ) → Merged → Except EngineError Merged
  | _, [], merged => .ok merged
  | 0, _ :: _, _ =>
    invalid "chart history exceeds 64 bounded scans; narrow run/source/time filters"
  | reads + 1, bounds :: rest, merged =>
    match queryPage serde format (request.window span bounds) db with
    | .ok response => do
      let merged ← merged.addPage format response
      readWindows serde format request span db reads rest merged
    | .error error =>
      if scanBudget error ∧ bounds.1 < bounds.2 then
        let middle := bounds.1 + (bounds.2 - bounds.1) / 2
        readWindows serde format request span db reads
          ((bounds.1, middle) :: (middle + 1, bounds.2) :: rest) merged
      else .error error

/-! ## The answer -/

/-- The entries of a column at some positions. -/
def atPositions {α : Type} (positions : List ℕ) (column : List α) : List α :=
  positions.filterMap fun position ↦ column[position]?

/-- The positions a merged series is sampled at. -/
def SnapshotQuerySeries.positions (request : SnapshotQueryRequest) (item : SnapshotQuerySeries) :
    List ℕ :=
  samplePositions item.values.length (min request.maxPoints item.values.length) fun index ↦
    (item.values.getD index none).isNone

def SnapshotQuerySeries.sampled (request : SnapshotQueryRequest) (item : SnapshotQuerySeries) :
    SnapshotQuerySeries :=
  let positions := item.positions request
  { item with
    snapshotIds := atPositions positions item.snapshotIds
    sourceSessionIds := atPositions positions item.sourceSessionIds
    sequences := atPositions positions item.sequences
    axes := atPositions positions item.axes
    observedAtNs := atPositions positions item.observedAtNs
    values := atPositions positions item.values }

/-- One turn of the loop over the merged series: the points so far and the answer. -/
def addSampled (request : SnapshotQueryRequest) (output : ℕ × List SnapshotQuerySeries)
    (item : SnapshotQuerySeries) : Except EngineError (ℕ × List SnapshotQuerySeries) := do
  let points := output.1 + (item.positions request).length
  reject (points > MAX_QUERY_OUTPUT_POINTS)
    (.invalidInput "snapshot query output budget exceeded; narrow query")
  return (points, output.2 ++ [item.sampled request])

/-- Sample the merged series. -/
def finishQuery (format : Formatting) (request : SnapshotQueryRequest) (merged : Merged) :
    Except EngineError SnapshotQueryResponse := do
  let output ← (merged.series.entries.map Prod.snd).foldlM (addSampled request) (0, [])
  let response := SnapshotQueryResponse.mk request.axis output.2
  reject (format.encodedLength response > MAX_SNAPSHOT_PAGE_BYTES)
    (.invalidInput "snapshot query response exceeds 16 MiB; narrow query")
  return response

/-- Split only scan-budget failures; malformed, incomplete and oversized-output reads stay
errors. -/
def queryControlled (serde : Serde) (format : Formatting) (request : SnapshotQueryRequest)
    (db : Database) : Except EngineError SnapshotQueryResponse :=
  match queryPage serde format request db with
  | .ok response => .ok response
  | .error error =>
    if scanBudget error then do
      let (low, high, count) ← queryBounds request db
      let span := high - low + 1
      let windows := cutWindows low span (windowCount request span count)
      let merged ← readWindows serde format request span db MAX_QUERY_WINDOWS windows Merged.empty
      finishQuery format request merged
    else .error error

end Rvx.Engine
