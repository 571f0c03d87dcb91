import Rvx.Core.Snapshots
import Rvx.Lib.TableScript

/-!
# The chart index

The tables charts are drawn from, and the insertion that derives them from one snapshot inside the
caller's transaction.  Numeric fields are discovered under budgets; whatever a budget skips is
recorded as an exclusion, so that incomplete indexing cannot pass for absence.
-/

namespace Rvx.Engine

open Core

def MAX_SOURCE_FIELDS : ℕ := 4096
def MAX_OBJECT_FIELDS : ℕ := 256
def MAX_DISCOVERY_NODES : ℕ := 8192
def INDEX_VERSION : ℤ := 3

/-- The errors of the store. -/
inductive EngineError where
  | protocol (error : ProtocolError)
  | invalidInput (reason : String)
  /-- The JSON library could not decode a stored text. -/
  | json
  /-- A statement failed: a constraint was violated or a table is missing. -/
  | sqlite
deriving DecidableEq

/-! ## Discovery -/

/-- What a traversal has found so far. -/
structure Discovery where
  fields : OrderedMap String ℚ
  nodes : ℕ
  truncated : Bool
  exclusions : OrderedSet String

namespace Discovery

def empty : Discovery := ⟨OrderedMap.empty, 0, false, OrderedMap.empty⟩

/-- Record a skipped subtree. -/
def exclude (path : String) (found : Discovery) : Discovery :=
  { found with exclusions := OrderedSet.insert path found.exclusions }

/-- Record a subtree skipped because a budget ran out. -/
def truncate (path : String) (found : Discovery) : Discovery :=
  { found.exclude path with truncated := true }

end Discovery

/-- `path.rsplit_once('/').map_or("", |(parent, _)| parent)`. -/
def parentPath (path : String) : String :=
  String.ofList ((path.toList.reverse.dropWhile fun c ↦ c ≠ '/').drop 1).reverse

/-- The path of a member. -/
def memberPath (path key : String) : String := path ++ "/" ++ escapeKey key

mutual

/-- Record numeric object fields and skipped subtrees. -/
def discover (value : Value) (path : String) (found : Discovery) : Discovery :=
  let found := { found with nodes := found.nodes + 1 }
  if found.nodes > MAX_DISCOVERY_NODES ∨ path.utf8ByteSize > 4096 then
    found.truncate (parentPath path)
  else match value with
    | .object entries =>
      if entries.length ≤ MAX_OBJECT_FIELDS then discoverEntries entries path found
      else found.truncate path
    | .array _ => found.exclude path
    | .number number =>
      if found.fields.size ≥ MAX_SOURCE_FIELDS then found.truncate path
      else match number.asF64 with
        | some value => { found with fields := found.fields.insert path value }
        | none => found
    | _ => found

/-- The loop over the members of an object. -/
def discoverEntries (entries : List (String × Value)) (path : String) (found : Discovery) :
    Discovery :=
  match entries with
  | [] => found
  | (key, value) :: rest =>
    if found.nodes ≥ MAX_DISCOVERY_NODES then found.truncate path
    else discoverEntries rest path (discover value (memberPath path key) found)

end

/-! ## Tables -/

structure FieldRow where
  runId : String
  sourceId : String
  path : String
  firstSnapshotId : ℕ
deriving DecidableEq

structure ValueRow where
  snapshotId : ℕ
  path : String
  value : ℚ
deriving DecidableEq

structure AxisRow where
  snapshotId : ℕ
  name : String
  value : ℤ
deriving DecidableEq

structure ObservationRow where
  snapshotId : ℕ
  truncated : Bool
  exclusionsJson : String
deriving DecidableEq

structure RunRow where
  runId : String
  snapshotCount : ℕ
  firstObservedAtNs : ℤ
  lastObservedAtNs : ℤ
  truncated : Bool
deriving DecidableEq

structure SourceAxisRow where
  runId : String
  sourceId : String
  name : String
deriving DecidableEq

/-- The seven chart tables; the metadata row holds the version and the last indexed ID. -/
structure ChartIndex where
  version : ℤ
  lastId : ℕ
  fields : List FieldRow
  values : List ValueRow
  axes : List AxisRow
  observations : List ObservationRow
  runs : List RunRow
  sourceAxes : List SourceAxisRow
deriving DecidableEq

namespace ChartIndex

/-- The tables a reset creates. -/
def empty : ChartIndex := ⟨INDEX_VERSION, 0, [], [], [], [], [], []⟩

def fieldTable : StoreTable ChartIndex FieldRow (String × String × String) where
  key row := (row.runId, row.sourceId, row.path)
  rows := fields
  write new chart := { chart with fields := new }
  rows_write _ _ := rfl
  write_write _ _ _ := rfl
  write_rows _ := rfl

def valueTable : StoreTable ChartIndex ValueRow (ℕ × String) where
  key row := (row.snapshotId, row.path)
  rows := values
  write new chart := { chart with values := new }
  rows_write _ _ := rfl
  write_write _ _ _ := rfl
  write_rows _ := rfl

def axisTable : StoreTable ChartIndex AxisRow (ℕ × String) where
  key row := (row.snapshotId, row.name)
  rows := axes
  write new chart := { chart with axes := new }
  rows_write _ _ := rfl
  write_write _ _ _ := rfl
  write_rows _ := rfl

def observationTable : StoreTable ChartIndex ObservationRow ℕ where
  key row := row.snapshotId
  rows := observations
  write new chart := { chart with observations := new }
  rows_write _ _ := rfl
  write_write _ _ _ := rfl
  write_rows _ := rfl

def sourceAxisTable : StoreTable ChartIndex SourceAxisRow (String × String × String) where
  key row := (row.runId, row.sourceId, row.name)
  rows := sourceAxes
  write new chart := { chart with sourceAxes := new }
  rows_write _ _ := rfl
  write_write _ _ _ := rfl
  write_rows _ := rfl

/-- The paths indexed for a source. -/
def knownPaths (run source : String) (chart : ChartIndex) : OrderedSet String :=
  OrderedSet.ofList ((chart.fields.filter fun row ↦
    row.runId = run ∧ row.sourceId = source).map FieldRow.path)

/-- The axes seen for a source. -/
def knownAxes (run source : String) (chart : ChartIndex) : OrderedSet String :=
  OrderedSet.ofList ((chart.sourceAxes.filter fun row ↦
    row.runId = run ∧ row.sourceId = source).map SourceAxisRow.name)

end ChartIndex

/-! ## Insertion -/

/-- The state of the loop over discovered paths. -/
structure Admission where
  known : OrderedSet String
  added : List String
  truncated : Bool
  exclusions : OrderedSet String

/-- One discovered path: already known, over the source's limit, or new. -/
def Admission.consider (admission : Admission) (path : String) : Admission :=
  if path ∈ admission.known then admission
  else if admission.known.size = MAX_SOURCE_FIELDS then
    { admission with
      truncated := true, exclusions := OrderedSet.insert path admission.exclusions }
  else
    { admission with
      known := OrderedSet.insert path admission.known, added := admission.added ++ [path] }

/-- The discovery of a snapshot, and the admission of what it found. -/
def admitFields (state : Value) (known : OrderedSet String) : Admission :=
  let found := discover state "" Discovery.empty
  found.fields.keys.foldl Admission.consider ⟨known, [], found.truncated, found.exclusions⟩

/-- The values of all known paths that hold a number. -/
def valueRows (id : ℕ) (state : Value) (known : OrderedSet String) : List ValueRow :=
  known.keys.filterMap fun path ↦
    ((state.pointer path).bind Value.asF64).map fun value ↦ ⟨id, path, value⟩

/-- The logical axes of a snapshot. -/
def logicalAxes (snapshot : StateSnapshot) : List (String × ℤ) :=
  snapshot.axes.entries.filter fun axis ↦ axis.1 ≠ "wall_time" ∧ axis.1 ≠ "elapsed"

/-- The state of the loop over a snapshot's axes. -/
structure AxisAdmission where
  known : OrderedSet String
  added : List String
  truncated : Bool

def AxisAdmission.consider (admission : AxisAdmission) (name : String) : AxisAdmission :=
  if name ∈ admission.known then admission
  else if admission.known.size < 256 then
    { admission with
      known := OrderedSet.insert name admission.known, added := admission.added ++ [name] }
  else { admission with truncated := true }

def admitAxes (snapshot : StateSnapshot) (known : OrderedSet String) (truncated : Bool) :
    AxisAdmission :=
  ((logicalAxes snapshot).map Prod.fst).foldl AxisAdmission.consider ⟨known, [], truncated⟩

/-- `serde_json::to_string` of a list of paths. -/
def encodePaths (paths : List String) : String := String.ofList (printArray (paths.map quote))

/-- An oversized exclusion list collapses to the root. -/
def collapseExclusions (exclusions : OrderedSet String) : String × Bool :=
  let encoded := encodePaths exclusions.keys
  if encoded.utf8ByteSize > 16 * 1024 then (encodePaths [""], true) else (encoded, false)

namespace ChartIndex

/-- `INSERT INTO chart_runs ... ON CONFLICT(run_id) DO UPDATE`. -/
def countRun (run : String) (observed : ℤ) (truncated : Bool) (chart : ChartIndex) : ChartIndex :=
  { chart with
    runs := Table.upsert RunRow.runId
      (fun old ↦
        { old with
          snapshotCount := old.snapshotCount + 1
          firstObservedAtNs := min old.firstObservedAtNs observed
          lastObservedAtNs := max old.lastObservedAtNs observed
          truncated := old.truncated || truncated })
      ⟨run, 1, observed, observed, truncated⟩ chart.runs }

/-- `UPDATE chart_index_meta SET last_id=?`. -/
def touch (id : ℕ) (chart : ChartIndex) : ChartIndex := { chart with lastId := id }

open Script in
/-- Derive the rows of one snapshot.  The statements of the source's loops are grouped by table. -/
def insert (id : ℕ) (run source : String) (snapshot : StateSnapshot) :
    Script ChartIndex EngineError Unit := do
  let event ← check ((isTrackerEvent snapshot.state.value).mapError .protocol)
  if event then modify (touch id)
  else do
    let known ← read (knownPaths run source)
    let fields := admitFields snapshot.state.value known
    fieldTable.insertEach .sqlite (fields.added.map fun path ↦ ⟨run, source, path, id⟩)
    valueTable.insertEach .sqlite (valueRows id snapshot.state.value fields.known)
    let knownAxes ← read (knownAxes run source)
    let axes := admitAxes snapshot knownAxes fields.truncated
    axisTable.insertEach .sqlite ((logicalAxes snapshot).map fun axis ↦ ⟨id, axis.1, axis.2⟩)
    sourceAxisTable.insertEach .sqlite (axes.added.map fun name ↦ ⟨run, source, name⟩)
    let (encoded, collapsed) := collapseExclusions fields.exclusions
    let truncated := axes.truncated || collapsed
    observationTable.insert .sqlite ⟨id, truncated, encoded⟩
    modify (countRun run snapshot.observedAtNs truncated)
    modify (touch id)

end ChartIndex

end Rvx.Engine
