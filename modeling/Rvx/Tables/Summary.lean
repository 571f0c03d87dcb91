import Rvx.Core.Double
import Rvx.Engine.Query
import Rvx.Tables.Rows

/-!
# Table summaries

One row for every selected source and requested path, with the statistics of all indexed numbers of
the selected observations.  A number that the index may have skipped makes the summary fail.
-/

namespace Rvx.Tables

open Core Engine Check StableSort

structure TableSummaryRequest where
  runIds : List String
  paths : List String
  sourceIds : List String
  axis : String
  fromBound : Option ℤ
  toBound : Option ℤ

structure TableSummaryRow where
  runId : String
  sourceId : String
  path : String
  observations : ℕ
  count : ℕ
  missing : ℕ
  current : Option ℚ
  minimum : Option ℚ
  average : Option ℚ
  p95 : Option ℚ
  maximum : Option ℚ
  snapshotId : Option String
  observedAtNs : Option ℤ
deriving DecidableEq

structure TableSummaryResponse where
  axis : String
  rows : List TableSummaryRow

def TableSummaryRequest.query (request : TableSummaryRequest) : SnapshotQueryRequest where
  runIds := request.runIds
  paths := request.paths
  sourceIds := request.sourceIds
  axis := request.axis
  fromBound := request.fromBound
  toBound := request.toBound
  maxPoints := 1

/-! ## Statistics -/

/-- The compensated sum of the values over their scale. -/
def compensated (scale : Float) (values : List Float) : Float :=
  (values.foldl (fun (state : Float × Float) value ↦
    let term := value / scale - state.2
    let next := state.1 + term
    (next, (next - state.1) - term)) (0.0, 0.0)).1

def mean (values : List ℚ) : Option ℚ :=
  let floats := values.map Double.ofDyadic
  let scale := floats.foldl (fun scale value ↦ Double.max scale value.abs) 0.0
  if values = [] then none
  else if scale == 0.0 then some 0
  else
    let ratio := compensated scale floats / Float.ofNat values.length
    some (Double.toRat (Double.max (-1.0) (Double.min ratio 1.0) * scale))

/-- `(95 * count).div_ceil(100)`. -/
def nearestRank (count : ℕ) : ℕ := (95 * count + 99) / 100

/-- The number of a point under the path with this index. -/
def valueAt (index : ℕ) (point : Projected) : Option ℚ := point.values.getD index none

def summaryRow (source : Source) (path : String) (index : ℕ) (points : List Projected) :
    TableSummaryRow :=
  let values := sortOn (fun value ↦ value) (points.filterMap (valueAt index))
  let latest := points.getLast?
  { runId := source.runId
    sourceId := source.id
    path := path
    observations := points.length
    count := values.length
    missing := points.length - values.length
    current := latest.bind (valueAt index)
    minimum := values.head?
    average := mean values
    p95 := if 0 < values.length then values[nearestRank values.length - 1]? else none
    maximum := values.getLast?
    snapshotId := latest.map fun point ↦ String.ofList (printNat point.id)
    observedAtNs := latest.map Projected.observed }

/-! ## The summary -/

/-- A number of the point may have been skipped before its path was indexed. -/
def uncovered (path : String) (index : ℕ) (first : Option ℕ) (point : Projected) : Bool :=
  point.excludes path && (first.all fun first ↦ point.id < first) &&
    (valueAt index point).isNone

/-- One turn of the loop over the paths. -/
def summarizePath (known : OrderedMap (String ×ₗ String ×ₗ String) ℕ) (source : Source)
    (points : List Projected) (rows : List TableSummaryRow) (entry : String × ℕ) :
    Except EngineError (List TableSummaryRow) := do
  let first := known.get? (fieldKey source.runId source.id entry.1)
  reject (points.any (uncovered entry.1 entry.2 first)) (.invalidInput
    "summary field index coverage is incomplete; narrow source/time/field selection")
  return rows ++ [summaryRow source entry.1 entry.2 points]

/-- One turn of the loop over the sources. -/
def summarizeSource (request : TableSummaryRequest) (projected : QueryProjection)
    (rows : List TableSummaryRow) (source : Source) : Except EngineError (List TableSummaryRow) :=
  let points := (projected.groups.get? (toLex (source.runId, source.id))).getD []
  request.paths.zipIdx.foldlM (summarizePath projected.known source points) rows

/-- `text` is the JSON text of a response. -/
def tableSummary (serde : Serde) (format : Formatting) (text : TableSummaryResponse → List Char)
    (request : TableSummaryRequest) (sources : List Source) (db : Database) :
    Except EngineError TableSummaryResponse := do
  let projected ← projection serde format request.query db
  let rows ← sources.foldlM (summarizeSource request projected) []
  let response := TableSummaryResponse.mk request.axis rows
  boundedResponse (text response)
  return response

/-- A summary by the engine: the selection is checked and its sources are looked up. -/
def Registrations.tableSummary (runtime : Runtime) (serde : Serde) (format : Formatting)
    (text : TableSummaryResponse → List Char) (registrations : Registrations)
    (request : TableSummaryRequest) (db : Database) : Except EngineError TableSummaryResponse :=
  registrations.readTable runtime request.runIds request.sourceIds fun sources ↦
    Tables.tableSummary serde format text request sources db

end Rvx.Tables
