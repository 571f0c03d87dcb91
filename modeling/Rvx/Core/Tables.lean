import Rvx.Core.SnapshotViews
import Rvx.Core.Ui

/-!
# Table requests and responses

The wire contracts of table pages, record pages and aggregates: what a request asks for, the checks
that need no snapshot, and the text of a response, whose length is bounded.
-/

namespace Rvx.Core

open Check

def MAX_SNAPSHOT_GROUPS : ℕ := 50000

def MAX_SNAPSHOT_RECORDS_PAGE : ℕ := 2048

/-! ## Cells and rows -/

inductive TableCellKind where
  | missing | null | number | string | boolean | object | array
deriving DecidableEq

/-- Kinds are ordered as they are declared. -/
def TableCellKind.index : TableCellKind → ℕ
  | .missing => 0
  | .null => 1
  | .number => 2
  | .string => 3
  | .boolean => 4
  | .object => 5
  | .array => 6

instance : LinearOrder TableCellKind :=
  LinearOrder.lift' TableCellKind.index fun a b h ↦ by cases a <;> cases b <;> first | rfl | cases h

structure TableCell where
  kind : TableCellKind
  text : String
  truncated : Bool
deriving DecidableEq

structure TableColumn where
  path : String
  name : String
  kinds : Option (List TableCellKind)
deriving DecidableEq

structure TableSource where
  runId : String
  sourceId : String
  label : String
  role : String
  rank : Option ℤ
  nodeId : Option String
  snapshotId : String
  observedAtNs : ℤ
  rowCount : ℕ
deriving DecidableEq

inductive TableCollectionKind where
  | array | object
deriving DecidableEq

def TableCollectionKind.index : TableCollectionKind → ℕ
  | .array => 0
  | .object => 1

instance : LinearOrder TableCollectionKind :=
  LinearOrder.lift' TableCollectionKind.index fun a b h ↦ by
    cases a <;> cases b <;> first | rfl | cases h

/-- A collection that was discovered. -/
structure TableDefinition where
  path : String
  name : String
  columns : List TableColumn
  sources : List TableSource
  collectionKinds : Option (List TableCollectionKind)
deriving DecidableEq

structure TableCatalogResponse where
  tables : List TableDefinition
  truncated : Bool
deriving DecidableEq

structure TableDataRow where
  runId : String
  sourceId : String
  snapshotId : String
  rowKey : String
  cells : OrderedMap String TableCell
deriving DecidableEq

/-! ## Requests -/

inductive TableFilterOp where
  | contains | eq | gt | lt
deriving DecidableEq

structure TableFilter where
  path : String
  op : TableFilterOp
  value : String
deriving DecidableEq

structure TableRowsRequest where
  runIds : List String
  sourceIds : List String
  path : String
  columns : Option (List String)
  snapshotIds : Option (List String)
  search : Option String
  filters : List TableFilter
  sort : Option TableSort
  offset : ℕ
  limit : ℕ

structure TableRowsResponse where
  columns : List TableColumn
  rows : List TableDataRow
  total : ℕ
  offset : ℕ
  limit : ℕ
  snapshots : List TableSource
deriving DecidableEq

structure SnapshotRecordsRequest where
  runIds : List String
  sourceIds : List String
  path : String
  columns : Option (List String)
  snapshotIds : Option (List String)
  search : Option String
  filters : List TableFilter
  sort : Option TableSort
  offset : ℕ
  limit : ℕ
  identityPaths : List String

namespace SnapshotRecordsRequest

/-- The records are read by the pipeline of the tables. -/
def tableRequest (request : SnapshotRecordsRequest) : TableRowsRequest where
  runIds := request.runIds
  sourceIds := request.sourceIds
  path := request.path
  columns := request.columns
  snapshotIds := request.snapshotIds
  search := request.search
  filters := request.filters
  sort := request.sort
  offset := request.offset
  limit := request.limit

def validateIdentityPaths (request : SnapshotRecordsRequest) : Except String Unit :=
  viewPaths request.identityPaths 1 4

end SnapshotRecordsRequest

structure SnapshotRecordsResponse where
  table : TableRowsResponse
  identities : List String
deriving DecidableEq

structure SnapshotMeasure where
  id : String
  op : SnapshotAggregation
  path : Option String
deriving DecidableEq

structure SnapshotAggregateOrder where
  measure : String
  direction : TableSortDirection
deriving DecidableEq

structure SnapshotAggregateRequest where
  runIds : List String
  sourceIds : List String
  path : String
  snapshotIds : Option (List String)
  search : Option String
  filters : List TableFilter
  groupBy : List String
  measures : List SnapshotMeasure
  order : Option SnapshotAggregateOrder
  offset : ℕ
  limit : ℕ

/-- The loop over the measures; `seen` are the ids before. -/
def validateMeasures : (seen : List String) → List SnapshotMeasure → Except String Unit
  | _, [] => pure ()
  | seen, measure :: rest => do
    reject (validUiId measure.id = false ∨ measure.id ∈ seen)
      "measure IDs must be unique and bounded"
    match measure.path with
    | some path => validateSnapshotField path
    | none => reject (measure.op ≠ .count) "numeric measures require a path"
    validateMeasures (measure.id :: seen) rest

def SnapshotAggregateRequest.validate (request : SnapshotAggregateRequest) : Except String Unit := do
  viewPaths request.groupBy 1 2
  reject (request.measures = [] ∨ request.measures.length > 8 ∨
      request.offset > MAX_SNAPSHOT_GROUPS ∨ request.limit < 1 ∨ 256 < request.limit)
    "aggregate requires 1..8 measures, offset at most 50000, and limit 1..256"
  validateMeasures [] request.measures
  reject (request.order.any fun order ↦
      decide (order.measure ∉ request.measures.map SnapshotMeasure.id))
    "aggregate order references an unknown measure"

structure SnapshotAggregateValue where
  value : TableCell
  minimumMagnitude : Option TableCell
  count : ℕ
  missing : ℕ
  nonNumeric : ℕ
  approximate : Bool
deriving DecidableEq

structure SnapshotAggregateSeries where
  runId : String
  sourceId : String
  snapshotId : String
  measures : OrderedMap String SnapshotAggregateValue
deriving DecidableEq

structure SnapshotAggregateGroup where
  key : String
  cells : List TableCell
  series : List SnapshotAggregateSeries
deriving DecidableEq

structure SnapshotAggregateResponse where
  groups : List SnapshotAggregateGroup
  totalGroups : ℕ
  matchedRows : ℕ
  offset : ℕ
  limit : ℕ
  snapshots : List TableSource
deriving DecidableEq

/-! ## Text -/

/-- The text of a value that may be absent. -/
def printOption {α : Type} (print : α → List Char) (value : Option α) : List Char :=
  value.elim Value.null.print print

def printBool (value : Bool) : List Char := (Value.bool value).print

def TableCellKind.name : TableCellKind → String
  | .missing => "missing"
  | .null => "null"
  | .number => "number"
  | .string => "string"
  | .boolean => "boolean"
  | .object => "object"
  | .array => "array"

def TableCell.chars (cell : TableCell) : List Char :=
  printObject
    [member "kind" (quote cell.kind.name), member "text" (quote cell.text),
     member "truncated" (printBool cell.truncated)]

def TableColumn.chars (column : TableColumn) : List Char :=
  printObject
    ([member "path" (quote column.path), member "name" (quote column.name)] ++
      column.kinds.toList.map fun kinds ↦
        member "kinds" (printArray (kinds.map fun kind ↦ quote kind.name)))

def TableSource.chars (source : TableSource) : List Char :=
  printObject
    [member "run_id" (quote source.runId), member "source_id" (quote source.sourceId),
     member "label" (quote source.label), member "role" (quote source.role),
     member "rank" (printOption printInt source.rank),
     member "node_id" (printOption quote source.nodeId),
     member "snapshot_id" (quote source.snapshotId),
     member "observed_at_ns" (printInt source.observedAtNs),
     member "row_count" (printNat source.rowCount)]

def TableCollectionKind.name : TableCollectionKind → String
  | .array => "array"
  | .object => "object"

def TableDefinition.chars (table : TableDefinition) : List Char :=
  printObject
    ([member "path" (quote table.path), member "name" (quote table.name),
      member "columns" (printArray (table.columns.map TableColumn.chars)),
      member "sources" (printArray (table.sources.map TableSource.chars))] ++
      table.collectionKinds.toList.map fun kinds ↦
        member "collection_kinds" (printArray (kinds.map fun kind ↦ quote kind.name)))

def TableCatalogResponse.chars (response : TableCatalogResponse) : List Char :=
  printObject
    [member "tables" (printArray (response.tables.map TableDefinition.chars)),
     member "truncated" (printBool response.truncated)]

def TableDataRow.chars (row : TableDataRow) : List Char :=
  printObject
    [member "run_id" (quote row.runId), member "source_id" (quote row.sourceId),
     member "snapshot_id" (quote row.snapshotId), member "row_key" (quote row.rowKey),
     member "cells" (printObject (row.cells.entries.map fun entry ↦ member entry.1 entry.2.chars))]

def TableRowsResponse.members (response : TableRowsResponse) : List (List Char) :=
  [member "columns" (printArray (response.columns.map TableColumn.chars)),
   member "rows" (printArray (response.rows.map TableDataRow.chars)),
   member "total" (printNat response.total), member "offset" (printNat response.offset),
   member "limit" (printNat response.limit),
   member "snapshots" (printArray (response.snapshots.map TableSource.chars))]

def TableRowsResponse.chars (response : TableRowsResponse) : List Char :=
  printObject response.members

/-- The table is flattened into the response. -/
def SnapshotRecordsResponse.chars (response : SnapshotRecordsResponse) : List Char :=
  printObject
    (response.table.members ++ [member "identities" (printArray (response.identities.map quote))])

def SnapshotAggregateValue.chars (value : SnapshotAggregateValue) : List Char :=
  printObject
    ([member "value" value.value.chars] ++
      (value.minimumMagnitude.toList.map fun cell ↦ member "minimum_magnitude" cell.chars) ++
      [member "count" (printNat value.count), member "missing" (printNat value.missing),
       member "non_numeric" (printNat value.nonNumeric),
       member "approximate" (printBool value.approximate)])

def SnapshotAggregateSeries.chars (series : SnapshotAggregateSeries) : List Char :=
  printObject
    [member "run_id" (quote series.runId), member "source_id" (quote series.sourceId),
     member "snapshot_id" (quote series.snapshotId),
     member "measures"
      (printObject (series.measures.entries.map fun entry ↦ member entry.1 entry.2.chars))]

def SnapshotAggregateGroup.chars (group : SnapshotAggregateGroup) : List Char :=
  printObject
    [member "key" (quote group.key), member "cells" (printArray (group.cells.map TableCell.chars)),
     member "series" (printArray (group.series.map SnapshotAggregateSeries.chars))]

def SnapshotAggregateResponse.chars (response : SnapshotAggregateResponse) : List Char :=
  printObject
    [member "groups" (printArray (response.groups.map SnapshotAggregateGroup.chars)),
     member "total_groups" (printNat response.totalGroups),
     member "matched_rows" (printNat response.matchedRows),
     member "offset" (printNat response.offset), member "limit" (printNat response.limit),
     member "snapshots" (printArray (response.snapshots.map TableSource.chars))]

end Rvx.Core
