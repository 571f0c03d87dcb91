import Rvx.Tables.Rows

/-!
# The table catalog

Discovery visits the current state of every source and lists each collection it meets as a table.
It stops inside records and at record maps, whose members are rows rather than further tables.  The
observed columns of a table are those of all its collections.  Discovery is bounded, and says when
it was cut off.
-/

namespace Rvx.Tables

open Core Engine Check StableSort

def MAX_TABLES : ℕ := 256
def MAX_CATALOG_NODES : ℕ := 50000
def MAX_WRAPPER_MEMBERS : ℕ := 32

def cellKind : Cell → TableCellKind
  | .missing => .missing
  | .key _ => .string
  | .value (.string _) => .string
  | .value .null => .null
  | .value (.bool _) => .boolean
  | .value (.number _) => .number
  | .value (.array _) => .array
  | .value (.object _) => .object

def isContainer : Value → Bool
  | .array _ => true
  | .object _ => true
  | _ => false

/-- The members of an object; no other value has any. -/
def memberValues : Value → List Value
  | .object entries => entries.map Prod.snd
  | _ => []

/-! ## Record maps -/

/-- Fails once the nodes of a discovery are used up. -/
def catalogVisit : Script ℕ Unit Unit := do
  Script.modify fun nodes ↦ nodes + 1
  let nodes ← Script.read id
  Script.check (reject (nodes > MAX_CATALOG_NODES) ())

/-- Whether some value passes the test, up to the first that does; every value is visited. -/
def anyVisited (test : Value → Script ℕ Unit Bool) : List Value → Script ℕ Unit Bool
  | [] => return false
  | value :: rest => do
    catalogVisit
    if ← test value then
      return true
    anyVisited test rest

/-- A namespace has structured documents under its members. -/
def wrapsDocuments (entries : List (String × Value)) : Script ℕ Unit Bool :=
  anyVisited (fun row ↦
    anyVisited (fun field ↦
      anyVisited (fun value ↦ return isContainer value) (memberValues field)) (memberValues row))
    (entries.map Prod.snd)

/-- The keys of a record that hold no array or object. -/
def visitScalarKeys : List (String × Value) → Script ℕ Unit (List String)
  | [] => return []
  | (key, value) :: rest => do
    catalogVisit
    let keys ← visitScalarKeys rest
    return if isContainer value then keys else key :: keys

/-- All values are objects that share a scalar key; `common` are the keys shared before. -/
def shareKey : (common : Option (List String)) → List Value → Script ℕ Unit Bool
  | _, [] => return true
  | common, value :: rest => do
    catalogVisit
    match value with
    | .object row =>
      let keys ← visitScalarKeys row
      let common := common.elim keys fun previous ↦ previous.filter fun key ↦ key ∈ keys
      if common = [] then
        return false
      shareKey (some common) rest
    | _ => return false

def isRecordMap (entries : List (String × Value)) : Script ℕ Unit Bool := do
  if entries.isEmpty then
    return false
  let wrapper ← if entries.length ≤ MAX_WRAPPER_MEMBERS then wrapsDocuments entries
    else pure false
  if wrapper then
    return false
  shareKey none (entries.map Prod.snd)

/-! ## Hints -/

/-- The records seen at a path, and how many of them have a field, of which kinds. -/
structure CatalogHints where
  rows : ℕ
  fields : OrderedMap String (ℕ × OrderedSet TableCellKind)

namespace CatalogHints

def empty : CatalogHints := ⟨0, OrderedMap.empty⟩

/-- Every collection has keys, which are strings. -/
def withKey (hints : CatalogHints) : CatalogHints :=
  if "$key" ∈ hints.fields then hints
  else { hints with fields := hints.fields.insert "$key" (0, OrderedSet.ofList [.string]) }

def observe (hints : CatalogHints) (field : String) (kind : TableCellKind) : CatalogHints :=
  let (present, kinds) := (hints.fields.get? field).getD (0, OrderedMap.empty)
  { hints with fields := hints.fields.insert field (present + 1, OrderedSet.insert kind kinds) }

/-- A record all of whose fields were seen. -/
def complete (hints : CatalogHints) : CatalogHints where
  rows := hints.rows + 1
  fields := (hints.fields.get? "$key").elim hints.fields fun (present, kinds) ↦
    hints.fields.insert "$key" (present + 1, kinds)

/-- A field that some record lacks is missing there. -/
def columns (hints : CatalogHints) : List TableColumn :=
  hints.fields.entries.map fun (path, present, observed) ↦
    let kinds := if present < hints.rows then OrderedSet.insert .missing observed else observed
    { column path with kinds := some kinds.keys }

end CatalogHints

/-- The direct fields of a record. -/
def rowFields : Value → List (String × Value)
  | .object entries => entries.map fun entry ↦ ("/" ++ escapeKey entry.1, entry.2)
  | value => [("$value", value)]

/-- The loops over a collection. -/
structure Noting where
  nodes : ℕ
  truncated : Bool
  hints : CatalogHints

/-- The fields of a record, and whether all were visited. -/
def noteFields : List (String × Value) → Noting → Noting × Bool
  | [], noting => (noting, true)
  | (field, value) :: rest, noting =>
    let noting := { noting with nodes := noting.nodes + 1 }
    if noting.nodes > MAX_CATALOG_NODES then ({ noting with truncated := true }, false)
    else if field.utf8ByteSize > 4096 ∨
        (field ∉ noting.hints.fields ∧ noting.hints.fields.size ≥ MAX_COLUMNS) then
      noteFields rest { noting with truncated := true }
    else
      noteFields rest
        { noting with hints := noting.hints.observe field (cellKind (.value value)) }

def noteRows : List Value → Noting → Noting
  | [], noting => noting
  | row :: rest, noting =>
    let noting := { noting with nodes := noting.nodes + 1 }
    if noting.nodes > MAX_CATALOG_NODES then { noting with truncated := true }
    else
      let (noting, complete) := noteFields (rowFields row) noting
      if complete then noteRows rest { noting with hints := noting.hints.complete }
      else noting

/-! ## Discovery -/

structure Discovery where
  tables : OrderedMap String TableDefinition
  hints : OrderedMap String CatalogHints
  nodes : ℕ
  truncated : Bool

namespace Discovery

def empty : Discovery := ⟨OrderedMap.empty, OrderedMap.empty, 0, false⟩

def truncate (discovery : Discovery) : Discovery := { discovery with truncated := true }

/-- The table at a path, with the kind of one more collection. -/
def table (discovery : Discovery) (path : String) (value : Value) : TableDefinition :=
  let table := (discovery.tables.get? path).getD
    ⟨path, if path = "" then "Root" else (column path).name, [], [], some []⟩
  let kind : TableCollectionKind := if value.isObject then .object else .array
  { table with
    collectionKinds := table.collectionKinds.map fun kinds ↦
      if kind ∈ kinds then kinds else sortOn id (kinds ++ [kind]) }

/-- Record what a collection holds. -/
def note (discovery : Discovery) (path : String) (value : Value) : Discovery :=
  let hints := ((discovery.hints.get? path).getD CatalogHints.empty).withKey
  let noting := noteRows ((collection value).map Prod.snd)
    ⟨discovery.nodes, discovery.truncated, hints⟩
  { tables := discovery.tables.insert path
      { discovery.table path value with columns := noting.hints.columns }
    hints := discovery.hints.insert path noting.hints
    nodes := noting.nodes
    truncated := noting.truncated }

/-- Whether the members of a collection are visited too. -/
def descends (discovery : Discovery) (path : String) (value : Value) : Discovery × Bool :=
  if discovery.nodes ≥ MAX_CATALOG_NODES then (discovery.truncate, false)
  else
    match value with
    | .object entries =>
      if path = "" then (discovery, true)
      else
        match isRecordMap entries discovery.nodes with
        | (.ok records, nodes) => ({ discovery with nodes := nodes }, !records)
        | (.error _, nodes) => ({ discovery with nodes := nodes }.truncate, false)
    | _ => (discovery, false)

/-- A visit up to the members, and whether they are visited. -/
def enter (discovery : Discovery) (path : String) (value : Value) : Discovery × Bool :=
  let discovery := { discovery with nodes := discovery.nodes + 1 }
  if discovery.nodes > MAX_CATALOG_NODES ∨ path.utf8ByteSize > 4096 then
    (discovery.truncate, false)
  else if collectionLen (some value) = none then (discovery, false)
  else if path ∉ discovery.tables ∧ discovery.tables.size ≥ MAX_TABLES then
    (discovery.truncate, false)
  else (discovery.note path value).descends path value

mutual

def visit (path : String) : Value → Discovery → Discovery
  | .object entries, discovery =>
    let (discovery, descend) := discovery.enter path (.object entries)
    if descend then visitEntries path entries discovery else discovery
  | .array items, discovery => (discovery.enter path (.array items)).1
  | .null, discovery => (discovery.enter path .null).1
  | .bool value, discovery => (discovery.enter path (.bool value)).1
  | .number value, discovery => (discovery.enter path (.number value)).1
  | .string value, discovery => (discovery.enter path (.string value)).1

/-- The members of an object, until the nodes are used up. -/
def visitEntries (path : String) : List (String × Value) → Discovery → Discovery
  | [], discovery => discovery
  | (key, child) :: rest, discovery =>
    if discovery.nodes ≥ MAX_CATALOG_NODES then discovery.truncate
    else visitEntries path rest (visit (path ++ "/" ++ escapeKey key) child discovery)

end

end Discovery

/-! ## The response -/

section Catalog

variable (sources : List Source) (snapshots : List StoredSnapshot)

/-- The sources that have a collection at a path, as far as there is room for them, and the bytes
of the table with them. -/
def catalogSources (path : String) (bytes : ℕ) :
    (tableBytes : ℕ) → List StoredSnapshot → List TableSource × ℕ
  | tableBytes, [] => ([], tableBytes)
  | tableBytes, snapshot :: rest =>
    match collectionLen (snapshot.snapshot.state.value.pointer path),
      sources.find? fun source ↦ source.id = snapshot.sourceId with
    | some count, some source =>
      let source := tableSource snapshot source count
      let tableBytes := tableBytes + (String.utf8Len source.chars + 1)
      if bytes + tableBytes > MAX_SNAPSHOT_PAGE_BYTES then ([], tableBytes)
      else
        let (listed, tableBytes) := catalogSources path bytes tableBytes rest
        (source :: listed, tableBytes)
    | _, _ => catalogSources path bytes tableBytes rest

/-- The tables that fit, and whether some did not. -/
def catalogTables : (bytes : ℕ) → List TableDefinition → List TableDefinition × Bool
  | _, [] => ([], false)
  | bytes, table :: rest =>
    let table := { table with sources := [] }
    let (listed, tableBytes) :=
      catalogSources sources table.path bytes (String.utf8Len table.chars) snapshots
    if bytes + tableBytes > MAX_SNAPSHOT_PAGE_BYTES then ([], true)
    else
      let (tables, truncated) := catalogTables (bytes + (tableBytes + 1)) rest
      ({ table with sources := listed } :: tables, truncated)

def discover : Discovery :=
  snapshots.foldl (fun discovery snapshot ↦ discovery.visit "" snapshot.snapshot.state.value)
    Discovery.empty

/-- The catalog of snapshots that were loaded. -/
def readCatalog : Except EngineError TableCatalogResponse := do
  let discovery := discover snapshots
  let (tables, truncated) := catalogTables sources snapshots PAGE_ENVELOPE_RESERVE
    (discovery.tables.entries.map Prod.snd)
  let response : TableCatalogResponse := ⟨tables, discovery.truncated || truncated⟩
  boundedResponse response.chars
  return response

end Catalog

def tableCatalog (runtime : Runtime) (serde : Serde) (sources : List Source) (db : Database) :
    Except EngineError TableCatalogResponse := do
  let snapshots ← tableSnapshots serde sources db runtime none false
  readCatalog sources snapshots

end Rvx.Tables
