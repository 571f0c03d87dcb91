import Rvx.Tables.Cells

/-!
# Scans

One pass over the collections of the loaded snapshots finds the matching records, the columns and
which fields exist.  The records of a page are then rendered, within the size of a response.
-/

namespace Rvx.Tables

open Core Engine Check

/-- What a table reads of a registered source. -/
structure Source where
  id : String
  runId : String
  role : String
  nodeId : Option String
  rank : Option ℤ
  descriptor : Option Value

def column (path : String) : TableColumn where
  path := path
  name :=
    if path = "$key" then "Key"
    else if path = "$value" then "Value"
    else if path = "" then "Row"
    else unescapeToken (path.toList.dropWhile fun c ↦ c = '/')
  kinds := none

def tableSource (snapshot : StoredSnapshot) (source : Source) (count : ℕ) : TableSource :=
  let rank := ((source.descriptor.bind fun d ↦ d.get? "rank").bind Value.asI64).or source.rank
  let nodeId := ((source.descriptor.bind fun d ↦ d.get? "node_id").bind Value.asText).or
    source.nodeId
  let label := ((source.descriptor.bind fun d ↦ d.pointer "/labels/name").bind
    Value.asText).getD (source.role ++
      (rank.elim "" fun rank ↦ " · rank " ++ String.ofList (printInt rank)) ++
      nodeId.elim "" fun node ↦ " · " ++ node)
  ⟨snapshot.runId, source.id, label, source.role, rank, nodeId,
    String.ofList (printNat snapshot.id), snapshot.snapshot.observedAtNs, count⟩

/-! ## Collections -/

def collectionLen : Option Value → Option ℕ
  | some (.array items) => some items.length
  | some (.object entries) => some entries.length
  | _ => none

/-- The records of a collection, under their keys. -/
def collection : Value → List (String × Value)
  | .array items => items.mapIdx fun i item ↦ (String.ofList (printNat i), item)
  | .object entries => entries
  | _ => []

def valueKind : Option Value → String
  | none => "missing"
  | some .null => "null"
  | some (.bool _) => "boolean"
  | some (.number _) => "number"
  | some (.string _) => "string"
  | some (.array _) => "array"
  | some (.object _) => "object"

/-- The columns a record brings, as far as there is room for them. -/
def rowColumns (value : Value) (columns : OrderedSet String) (cap : ℕ) (truncate : Bool) :
    Except EngineError (OrderedSet String × Bool) :=
  let candidates : List String := match value with
    | .object entries => entries.map fun entry ↦ "/" ++ escapeKey entry.1
    | _ => ["$value"]
  candidates.foldlM (fun (columns, truncated) path ↦
    if path.utf8ByteSize > 4096 ∨ (path ∉ columns ∧ columns.size ≥ cap) then
      if truncate then .ok (columns, true)
      else .error (.invalidInput
        "table schema exceeds 128 columns or 4096-byte pointers; select a narrower collection")
    else .ok (OrderedSet.insert path columns, truncated)) (columns, false)

/-! ## The scan -/

inductive ScanMode where
  | rows | records | projection
deriving DecidableEq

structure Scan where
  rows : List Record
  columns : List String
  snapshots : List TableSource
  allObjects : Bool

/-- A field that must exist in some record. -/
structure RequiredField where
  path : String
  field : FieldPath
  found : Bool

/-- What a scan has seen so far. -/
structure ScanState where
  rows : List Record
  columns : OrderedSet String
  fields : List RequiredField
  evidence : List TableSource
  scanned : ℕ
  allObjects : Bool

section Records

variable (runtime : Runtime) (request : TableRowsRequest) (mode : ScanMode)

/-- The fields of filters and sort, and in a table the requested columns. -/
def requiredFields : List RequiredField :=
  let requested := OrderedSet.ofList
    (request.filters.map TableFilter.path ++ request.sort.toList.map TableSort.path ++
      if mode = .rows then request.columns.getD [] else [])
  requested.keys.map fun path ↦ ⟨path, .new path, path = "$key"⟩

def scanFields (record : Record) : List RequiredField → Work (List RequiredField)
  | [] => return []
  | required :: rest => do
    WorkBudget.visit
    let found := required.found || !(required.field.cell record).isMissing
    let rest ← scanFields record rest
    return { required with found := found } :: rest

/-- The filters, up to the first that does not match. -/
def matchesFilters (record : Record) : List (CompiledFilter × FieldPath) → Work Bool
  | [] => return true
  | (compiled, field) :: rest => do
    if ← compiled.matchesCell runtime (field.cell record) then
      matchesFilters record rest
    else return false

def matchesSearch (search : Option String) (record : Record) : Work Bool :=
  match search with
  | none => return true
  | some needle => do
    if ← contains runtime needle (.key record.key) then
      return true
    contains runtime needle (.value record.value)

def scanRecord (filters : List (CompiledFilter × FieldPath)) (search : Option String)
    (state : ScanState) (record : Record) : Work ScanState := do
  WorkBudget.visit
  let columns ← if mode ≠ .projection ∧ request.columns = none then
      Script.check ((rowColumns record.value state.columns MAX_COLUMNS false).map Prod.fst)
    else pure state.columns
  let fields ← scanFields record state.fields
  let filtered ← matchesFilters runtime record filters
  let matched ← if filtered then matchesSearch runtime search record else pure false
  return { state with
    rows := if matched then state.rows ++ [record] else state.rows
    columns := columns
    fields := fields
    scanned := state.scanned + 1 }

/-- The records of a collection in their order. -/
def recordsOf (snapshot : StoredSnapshot) (value : Value) : List Record :=
  (collection value).mapIdx fun position entry ↦ ⟨snapshot, entry.1, position, entry.2⟩

/-- The snapshot of a selected source; only such snapshots are loaded. -/
def scanSnapshot (sources : List Source) (filters : List (CompiledFilter × FieldPath))
    (search : Option String) (state : ScanState) (snapshot : StoredSnapshot) : Work ScanState := do
  let value := snapshot.snapshot.state.value.pointer request.path
  match value, collectionLen value with
  | some value, some count =>
    let source := sources.find? fun source ↦ source.id = snapshot.sourceId
    let state := { state with
      allObjects := state.allObjects && value.isObject
      evidence := state.evidence ++ source.toList.map fun source ↦
        tableSource snapshot source count }
    (recordsOf snapshot value).foldlM (scanRecord runtime request mode filters search) state
  | value, _ => Script.check (.error (.invalidInput
      ("table path " ++ runtime.debug request.path ++ " is " ++ valueKind value ++ " in Source " ++
        runtime.debug snapshot.sourceId ++ ", snapshot " ++
        String.ofList (printNat snapshot.id) ++
        "; refresh the catalog or select compatible Sources")))

/-- The check that every field was found in some record. -/
def checkFields (state : ScanState) : Except EngineError Unit :=
  state.fields.forM fun required ↦
    reject (required.found = false ∧ required.path ∉ state.columns)
      (.invalidInput
        ("unknown table column " ++ runtime.debug required.path ++ " in selected snapshots"))

def records (snapshots : List StoredSnapshot) (sources : List Source) : Work Scan := do
  let filters ← Script.check (request.filters.mapM fun filter ↦ do
    return (← CompiledFilter.new runtime filter, FieldPath.new filter.path))
  let search := (request.search.filter fun text ↦ text ≠ "").map runtime.toLowercase
  let state ← snapshots.foldlM (scanSnapshot runtime request mode sources filters search)
    ⟨[], OrderedSet.ofList ["$key"], requiredFields request mode, [], 0, true⟩
  if state.scanned > 0 ∨ mode = .rows then
    Script.check (checkFields runtime state)
  let columns := if mode ≠ .projection then request.columns.getD state.columns.keys else []
  return ⟨state.rows, columns, state.evidence, state.allObjects⟩

end Records

/-! ## Rendering -/

/-- `json_size`: the length of a response, which is bounded. -/
def jsonSize (text : List Char) : Except EngineError ℕ :=
  if String.utf8Len text > MAX_SNAPSHOT_PAGE_BYTES then
    .error (.invalidInput "table response exceeds 16 MiB; narrow selection")
  else .ok (String.utf8Len text)

def boundedResponse (text : List Char) : Except EngineError Unit := do
  let _ ← jsonSize text

/-- A rendered record, its columns by path. -/
def renderRow (fields : List (String × FieldPath)) (record : Record) : TableDataRow where
  runId := record.snapshot.runId
  sourceId := record.snapshot.sourceId
  snapshotId := String.ofList (printNat record.snapshot.id)
  rowKey := record.key
  cells := OrderedMap.ofList (fields.map fun field ↦ (field.1, preview (field.2.cell record)))

/-- The loop over the page, with the bytes written so far. -/
def renderRows (fields : List (String × FieldPath)) :
    (bytes : ℕ) → List Record → Except EngineError (List TableDataRow)
  | _, [] => return []
  | bytes, record :: rest => do
    let output := renderRow fields record
    let size ← jsonSize output.chars
    reject (bytes + (size + 1) > MAX_SNAPSHOT_PAGE_BYTES)
      (.invalidInput "table response exceeds 16 MiB; reduce limit or selected columns")
    let rest ← renderRows fields (bytes + (size + 1)) rest
    return output :: rest

/-- The response with the records of a page. -/
def render (total : ℕ) (columns : List String) (snapshots : List TableSource) (offset limit : ℕ)
    (page : List Record) : Except EngineError TableRowsResponse := do
  let fields := columns.map fun path ↦ (path, FieldPath.new path)
  let response : TableRowsResponse := ⟨columns.map column, [], total, offset, limit, snapshots⟩
  let bytes ← jsonSize response.chars
  let rows ← renderRows fields bytes page
  let response := { response with rows := rows }
  boundedResponse response.chars
  return response

end Rvx.Tables
