import Rvx.Engine.Query

/-!
# The chart catalog

The catalog answers, for a selection of runs, which metrics can be drawn and which sources report
them.  It is read from the chart index and the heads in one transaction and never decodes a stored
state: a field is listed since some observation had it, its value is the one indexed for the head.
Whatever a limit cuts sets the flag `truncated`.
-/

namespace Rvx.Engine

open Core Check StableSort Database

def MAX_CATALOG_REPORTERS : ℕ := 16384

structure ChartCatalogRequest where
  runIds : List String

/-- What the catalog reads of a registered source. -/
structure ChartSource where
  id : String
  role : String
  nodeId : Option String
  rank : Option ℤ
  descriptor : Option Json

structure ChartRunInfo where
  runId : String
  snapshotCount : ℕ
  firstObservedAtNs : Option ℤ
  lastObservedAtNs : Option ℤ
deriving DecidableEq

inductive ChartGroup where
  | training
  | throughput
  | pipeline
  | resources
  | other
deriving DecidableEq

structure ChartMetricSource where
  runId : String
  sourceId : String
  label : String
  role : String
  rank : Option ℤ
  nodeId : Option String
  primary : Bool
  latestValue : Option ℚ
  observedAtNs : ℤ
deriving DecidableEq

structure ChartMetric where
  path : String
  name : String
  group : ChartGroup
  unit : Option String
  runIds : List String
  sources : List ChartMetricSource
deriving DecidableEq

structure ChartCatalogResponse where
  runs : List ChartRunInfo
  metrics : List ChartMetric
  defaults : List String
  axes : List String
  truncated : Bool
deriving DecidableEq

/-- What the catalog shows beside its data: the naming conventions, the choice of the first charts,
and the lengths of encoded answers. -/
structure ChartDisplay where
  humanize : String → String
  presentation : String → String × ChartGroup × Option String
  defaultPaths : List ChartMetric → List String
  reporterLength : ChartMetricSource → ℕ
  responseLength : ChartCatalogResponse → ℕ

/-! ## Sources -/

namespace ChartSource

/-- `source.descriptor.as_ref().and_then(|d| d.get(key))`. -/
def described (key : String) (source : ChartSource) : Option Value :=
  source.descriptor.bind fun descriptor ↦ descriptor.value.get? key

/-- The registered rank, else that of the descriptor. -/
def reportedRank (source : ChartSource) : Option ℤ :=
  source.rank.or ((source.described "rank").bind Value.asI64)

def reportedNode (source : ChartSource) : Option String :=
  source.nodeId.or ((source.described "node_id").bind Value.asText)

/-- A source is called by its label, else by what it is and where it runs. -/
def label (display : ChartDisplay) (source : ChartSource) : String :=
  ((source.descriptor.bind fun descriptor ↦ descriptor.value.pointer "/labels/name").bind
    Value.asText).getD (display.humanize source.role ++
      (source.reportedRank.elim "" fun rank ↦ " · rank " ++ String.ofList (printInt rank)) ++
      source.reportedNode.elim "" fun node ↦ " · " ++ node)

/-- Whether the descriptor marks the source as primary. -/
def marked (source : ChartSource) : Bool :=
  (((source.described "labels").bind fun labels ↦ labels.get? "rvx.primary").bind Value.asText) =
    some "true"

end ChartSource

/-- The sources by their ID; of several with one ID the last is kept. -/
def sourceMap (sources : List ChartSource) : OrderedMap String ChartSource :=
  .ofList (sources.map fun source ↦ (source.id, source))

/-! ## The rows of a run -/

/-- The tables the catalog reads. -/
structure CatalogTables where
  chart : ChartIndex
  heads : List HeadRow
  snapshots : List SnapshotRow

structure CatalogRow where
  path : String
  sourceId : String
  /-- `v.value`. -/
  value : Option ℚ
  observedAtNs : ℤ
deriving DecidableEq

namespace CatalogTables

/-- A field joined with the head of its source and, if there is one, with the number the head
has at its path. -/
def catalogRow (tables : CatalogTables) (field : FieldRow) : Option CatalogRow := do
  let head ← Table.lookup headKey (field.runId, field.sourceId) tables.heads
  let row ← Table.lookup SnapshotRow.id head.snapshotId tables.snapshots
  let value := Table.lookup ChartIndex.valueTable.key (row.id, field.path) tables.chart.values
  return ⟨field.path, field.sourceId, value.map ValueRow.value, row.observedAtNs⟩

/-- All fields of a run that have a head. -/
def joinedRows (tables : CatalogTables) (run : String) : List CatalogRow :=
  (tables.chart.fields.filter fun field ↦ field.runId = run).filterMap tables.catalogRow

/-- `ORDER BY f.path,f.source_id LIMIT 16385`. -/
def catalogRows (tables : CatalogTables) (run : String) : List CatalogRow :=
  (sortOn (fun row ↦ toLex (row.path, row.sourceId)) (tables.joinedRows run)).take 16385

def runInfo (tables : CatalogTables) (run : String) : ChartRunInfo :=
  match Table.lookup RunRow.runId run tables.chart.runs with
  | some row => ⟨run, row.snapshotCount, some row.firstObservedAtNs, some row.lastObservedAtNs⟩
  | none => ⟨run, 0, none, none⟩

/-- Indexing skipped something of the run. -/
def runTruncated (tables : CatalogTables) (run : String) : Bool :=
  tables.chart.runs.any fun row ↦ decide (row.runId = run) && row.truncated

/-- `SELECT DISTINCT name ... ORDER BY name LIMIT 257`. -/
def runAxes (tables : CatalogTables) (run : String) : List String :=
  ((OrderedSet.ofList ((tables.chart.sourceAxes.filter fun row ↦ row.runId = run).map
    SourceAxisRow.name)).keys).take 257

/-- The sources that have a field in a run. -/
def fieldSources (tables : CatalogTables) (run path : String) : List String :=
  (tables.chart.fields.filter fun field ↦ field.runId = run ∧ field.path = path).map
    FieldRow.sourceId

end CatalogTables

/-! ## Reading the rows -/

/-- The state of the loop over the runs. -/
structure CatalogRead where
  runs : List ChartRunInfo
  metrics : OrderedMap String ChartMetric
  logicalAxes : OrderedSet String
  reporters : ℕ
  bytes : ℕ
  truncated : Bool

namespace CatalogRead

def empty : CatalogRead := ⟨[], OrderedMap.empty, OrderedMap.empty, 0, 0, false⟩

/-- Count a reporter against the limits of the answer. -/
def count (display : ChartDisplay) (path : String) (reporter : ChartMetricSource)
    (read : CatalogRead) : CatalogRead :=
  { read with
    reporters := read.reporters + 1
    bytes := read.bytes + (display.reporterLength reporter + path.utf8ByteSize + 256) }

/-- The limits are exceeded. -/
def full (read : CatalogRead) : Prop :=
  read.reporters > MAX_CATALOG_REPORTERS ∨ read.bytes > MAX_SNAPSHOT_PAGE_BYTES - 16384

instance (read : CatalogRead) : Decidable read.full := inferInstanceAs (Decidable (_ ∨ _))

/-- List a reporter under its metric. -/
def report (display : ChartDisplay) (path : String) (reporter : ChartMetricSource)
    (read : CatalogRead) : CatalogRead :=
  let (name, group, unit) := display.presentation path
  let metric := (read.metrics.get? path).getD ⟨path, name, group, unit, [], []⟩
  let runIds :=
    if reporter.runId ∈ metric.runIds then metric.runIds else metric.runIds ++ [reporter.runId]
  let sources := metric.sources ++ [reporter]
  { read with metrics := read.metrics.insert path { metric with runIds, sources } }

end CatalogRead

section Reading

variable (display : ChartDisplay) (sources : OrderedMap String ChartSource)

/-- The reporter a row stands for. -/
def reporterOf (run : String) (row : CatalogRow) : Except EngineError ChartMetricSource :=
  match sources.get? row.sourceId with
  | none => invalid ("snapshot source metadata missing: " ++ row.sourceId)
  | some source => .ok
    { runId := run
      sourceId := row.sourceId
      label := source.label display
      role := source.role
      rank := source.reportedRank
      nodeId := source.reportedNode
      primary := source.marked
      latestValue := row.value
      observedAtNs := row.observedAtNs }

/-- The loop over the rows of a run. -/
def readReporters (run : String) : List CatalogRow → CatalogRead → Except EngineError CatalogRead
  | [], read => .ok read
  | row :: rest, read => do
    let reporter ← reporterOf display sources run row
    let read := read.count display row.path reporter
    if read.full then .ok { read with truncated := true }
    else readReporters run rest (read.report display row.path reporter)

/-- One turn of the loop over the runs. -/
def readRun (tables : CatalogTables) (read : CatalogRead) (run : String) :
    Except EngineError CatalogRead :=
  let logicalAxes := (tables.runAxes run).foldl (fun set name ↦ OrderedSet.insert name set)
    read.logicalAxes
  readReporters display sources run (tables.catalogRows run)
    { read with
      runs := read.runs ++ [tables.runInfo run]
      logicalAxes
      truncated := read.truncated || tables.runTruncated run || decide (logicalAxes.size > 256) }

end Reading

/-! ## The answer -/

section Primary

variable (tables : CatalogTables) (sources : OrderedMap String ChartSource)

/-- How many sources have the field of a run and are marked as primary. -/
def markedSources (run path : String) : ℕ :=
  (tables.fieldSources run path).countP fun id ↦ (sources.get? id).any ChartSource.marked

/-- The only source of a run is primary; of several it is the one that is marked. -/
def markRun (metric : ChartMetric) (run : String) : ChartMetric :=
  let count := (tables.fieldSources run metric.path).length
  let marked := markedSources tables sources run metric.path
  { metric with
    sources := metric.sources.map fun source ↦
      if source.runId = run then
        { source with primary := decide (count = 1) || (source.primary && decide (marked = 1)) }
      else source }

def markPrimary (metric : ChartMetric) : ChartMetric :=
  metric.runIds.foldl (markRun tables sources) metric

end Primary

/-- `chart_index::catalog`. -/
def chartCatalog (display : ChartDisplay) (request : ChartCatalogRequest)
    (sources : List ChartSource) (tables : CatalogTables) :
    Except EngineError ChartCatalogResponse := do
  let sources := sourceMap sources
  let read ← (OrderedSet.ofList request.runIds).keys.foldlM (readRun display sources tables)
    CatalogRead.empty
  let metrics := read.metrics.entries.map fun entry ↦ markPrimary tables sources entry.2
  let response : ChartCatalogResponse :=
    { runs := read.runs
      metrics
      defaults := display.defaultPaths metrics
      axes := ["wall_time", "elapsed"] ++ read.logicalAxes.keys.take 256
      truncated := read.truncated }
  reject (display.responseLength response > MAX_SNAPSHOT_PAGE_BYTES)
    (.invalidInput "chart catalog exceeds 16 MiB; select fewer runs")
  return response

/-- The tables of a file that was opened. -/
def openedTables (db : Database) : Except EngineError CatalogTables :=
  match db.chart, db.heads with
  | some chart, some heads => .ok ⟨chart, heads, db.snapshots⟩
  | _, _ => .error .sqlite

/-- `SnapshotStore::catalog`. -/
def catalog (display : ChartDisplay) (request : ChartCatalogRequest) (sources : List ChartSource)
    (db : Database) : Except EngineError ChartCatalogResponse := do
  checkIds request.runIds MAX_SNAPSHOT_QUERY_RUNS
  reject (request.runIds = []) (.invalidInput "catalog requires 1..64 run_ids")
  let tables ← openedTables db
  chartCatalog display request sources tables

end Rvx.Engine
