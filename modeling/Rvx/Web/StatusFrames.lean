import Mathlib.Data.List.ReduceOption
import Rvx.Tables.AggregatePages
import Rvx.Tables.PinnedReads
import Rvx.Web.ShadeCoverage

/-!
# Status frames

A panel of tasks reads a page of records and then, pinned to the snapshots of that page, how many
records of each status there are.  Before it shows them it checks that both responses are of one
dataset.  Between the reads anything may be ingested; the checks never fail on what the server
answered, but for a status that is no category or a number too long to be shaded.
-/

namespace Rvx.Web.StatusFrames

open Core Engine Tables Check
open Grouping (group Least)

/-! ## The wire -/

/-- A count in a response. -/
def received (count : ℕ) : JsNumber := JsNumber.ofRat count

def receivedValue (value : Core.SnapshotAggregateValue) : Shading.SnapshotAggregateValue :=
  ⟨value.value, value.minimumMagnitude, received value.count⟩

def receivedSeries (series : Core.SnapshotAggregateSeries) : Shading.SnapshotAggregateSeries :=
  ⟨fun id ↦ (series.measures.get? id).map receivedValue⟩

/-- What is read of the counts to shade the tasks. -/
def receivedCounts (counts : Core.SnapshotAggregateResponse) : Shading.SnapshotAggregateResponse :=
  ⟨counts.groups.map fun shown ↦ ⟨shown.series.map receivedSeries⟩, received counts.matchedRows⟩

/-- `JSON.stringify` of texts. -/
def stringify (texts : List String) : String :=
  String.ofList (Value.array (texts.map Value.string)).print

/-- Strings are ordered by their UTF-16 code units. -/
def utf16 (text : String) : List ℕ :=
  text.toList.flatMap fun c ↦
    if c.toNat < 0x10000 then [c.toNat]
    else [0xd800 + (c.toNat - 0x10000) / 0x400, 0xdc00 + (c.toNat - 0x10000) % 0x400]

/-! ## Counts -/

/-- A text that matches `\d+`, and its `BigInt`. -/
def digits? (text : String) : Option ℕ :=
  if text ≠ "" ∧ text.toList.all Char.isDigit = true then
    some (digitsValue (takeDigits text.toList).1)
  else none

def seriesCount (series : Core.SnapshotAggregateSeries) : Except String ℕ :=
  match (series.measures.get? "count").map Core.SnapshotAggregateValue.value with
  | none => .error "Task status counts are invalid."
  | some value =>
    match if value.kind = .number ∧ value.truncated = false then digits? value.text else none with
    | none => .error "Task status counts are invalid."
    | some count => .ok count

/-- The totals so far, and their sum. -/
def addTotals (state : List (String × String) × ℕ) (shown : SnapshotAggregateGroup) :
    Except String (List (String × String) × ℕ) := do
  reject (shown.key ∈ state.1.map Prod.fst) "Task status groups are duplicated."
  let count ← shown.series.foldlM (fun count series ↦ do return count + (← seriesCount series)) 0
  return (state.1 ++ [(shown.key, String.ofList (printNat count))], state.2 + count)

def statusTotals (response : Core.SnapshotAggregateResponse) :
    Except String (List (String × String)) := do
  reject (Shading.isSafeInteger (received response.matchedRows) = false ∨ response.offset ≠ 0 ∨
      response.groups.length ≠ response.totalGroups ∨ response.totalGroups > 128)
    "Task status counts are incomplete."
  let (totals, all) ← response.groups.foldlM addTotals ([], 0)
  reject (all ≠ response.matchedRows) "Task status counts do not cover the full filtered dataset."
  return totals

/-! ## Tasks -/

def missingCell : TableCell := ⟨.missing, "missing", false⟩

structure StatusTask where
  key : String
  identity : String
  record : TableDataRow
  state : TableCell
  group : String

def statusKey (cell : TableCell) : String := stringify [cell.kind.name, cell.text]

def statusTask (view : StatusGridView) (record : TableDataRow) (identity : String) : StatusTask where
  key := stringify [record.runId, record.sourceId, identity]
  identity := identity
  record := record
  state := (record.cells.get? view.statusPath).getD missingCell
  group := stringify [record.runId, record.sourceId, view.groupPath.elim "" fun path ↦
    statusKey ((record.cells.get? path).getD missingCell)]

/-- The loop over the records; `seen` are the keys before. -/
def collectTasks (view : StatusGridView) : (seen : List String) → List (TableDataRow × String) →
    Except String (List StatusTask)
  | _, [] => .ok []
  | seen, (record, identity) :: rest => do
    reject (identity = "") "The record page has an invalid task identity."
    let task := statusTask view record identity
    reject (task.key ∈ seen) "Task identities are not unique in the record page."
    let tasks ← collectTasks view (task.key :: seen) rest
    return task :: tasks

def statusTasks (response : SnapshotRecordsResponse) (view : StatusGridView) :
    Except String (List StatusTask) := do
  reject (response.identities.length ≠ response.table.rows.length)
    "Task identities are not aligned with the record page."
  let tasks ← collectTasks view [] (response.table.rows.zip response.identities)
  return StableSort.sortOn (fun task ↦ utf16 task.group) tasks

/-! ## The frame -/

def tooManyStates : String := "More than 128 task states. Choose a categorical status field."

/-- The scale of the shades; it is logarithmic unless the view says otherwise. -/
def shadeScale (view : StatusGridView) : Shading.Scale :=
  match view.shadeScale with
  | some .linear => .linear
  | some .log | none => .log

section Frame

variable (number : String → JsNumber) (logarithm : Shading.Decimal → Shading.Decimal → ℤ → JsNumber)

def checkShades (counts : Core.SnapshotAggregateResponse) (view : StatusGridView)
    (tasks : List StatusTask) (path : String) : Except String Unit := do
  let domain ← Shading.statusShadeDomain number (Shading.logDistance logarithm)
    (receivedCounts counts) (shadeScale view)
  tasks.forM fun task ↦ do
    let _ ← Shading.statusShade (Shading.logDistance logarithm) (task.record.cells.get? path) domain

def validateStatusFrame (records : SnapshotRecordsResponse)
    (counts : Core.SnapshotAggregateResponse) (view : StatusGridView) : Except String Unit := do
  reject (counts.totalGroups > 128) tooManyStates
  let pins := records.table.snapshots.map TableSource.snapshotId
  reject (counts.matchedRows ≠ records.table.total ∨ counts.groups.any fun shown ↦
      shown.series.any fun series ↦ decide (series.snapshotId ∉ pins))
    "Task counts do not match the pinned record observation. Retry this snapshot."
  let tasks ← statusTasks records view
  let _ ← statusTotals counts
  view.shadePath.toList.forM (checkShades number logarithm counts view tasks)

/-! ## Reading a frame -/

/-- What all requests of a panel have in common. -/
structure RecordQuery where
  runIds : List String
  sourceIds : List String
  path : String
  search : String
  filters : List TableFilter

def recordsQuery (query : RecordQuery) (view : StatusGridView) (offset : ℕ)
    (pinned : Option (List String)) : SnapshotRecordsRequest where
  runIds := query.runIds
  sourceIds := query.sourceIds
  path := query.path
  columns := some (view.idPaths ++ view.statusPath :: [view.labelPath, view.groupPath,
    view.valuePath, view.shadePath].reduceOption).eraseDups
  snapshotIds := pinned
  search := some query.search
  filters := query.filters
  sort := view.sort
  offset := offset
  limit := 1000
  identityPaths := view.idPaths

def countsQuery (query : RecordQuery) (view : StatusGridView) (pinned : Option (List String)) :
    SnapshotAggregateRequest where
  runIds := query.runIds
  sourceIds := query.sourceIds
  path := query.path
  snapshotIds := pinned
  search := some query.search
  filters := query.filters
  groupBy := [view.statusPath]
  measures := ⟨"count", .count, none⟩ :: view.shadePath.toList.flatMap fun path ↦
    [⟨"shade_min", .min, some path⟩, ⟨"shade_max", .max, some path⟩]
  order := none
  offset := 0
  limit := 128

/-- The ids of the snapshots that a page is of, each once. -/
def pinsOf (records : SnapshotRecordsResponse) : List String :=
  (records.table.snapshots.map TableSource.snapshotId).eraseDups

def lastPage (total : ℕ) : ℕ := ((total + 999) / 1000 - 1) * 1000

inductive FrameError where
  | server (reason : EngineError)
  | client (message : String)

structure StatusFrame where
  records : SnapshotRecordsResponse
  counts : Core.SnapshotAggregateResponse

/-- A page beyond the last one is read again, pinned to the snapshots of the first answer. -/
def readRecords (runtime : Runtime) (serde : Serde) (registrations : Registrations)
    (query : RecordQuery) (view : StatusGridView) (offset : ℕ) (first second : Database) :
    Except EngineError SnapshotRecordsResponse := do
  let records ← registrations.snapshotRecords runtime serde (recordsQuery query view offset none)
    first
  if offset > lastPage records.table.total then
    registrations.snapshotRecords runtime serde
      (recordsQuery query view (lastPage records.table.total) (some (pinsOf records))) second
  else return records

/-- The reads are answered one after the other, each by the database of its time. -/
def readStatusFrame (runtime : Runtime) (hash : HashOrder) (serde : Serde)
    (registrations : Registrations) (query : RecordQuery) (view : StatusGridView) (offset : ℕ)
    (first second third : Database) : Except FrameError StatusFrame := do
  let records ← (readRecords runtime serde registrations query view offset first second).mapError
    .server
  let counts ← (registrations.snapshotAggregate runtime hash serde
    (countsQuery query view (some (pinsOf records))) third).mapError .server
  (validateStatusFrame number logarithm records counts view).mapError .client
  return ⟨records, counts⟩

end Frame

/-! ## Texts -/

theorem stringify_injective : Function.Injective stringify := by
  intro texts others h
  have hvalue := Value.array.inj (print_injective (String.ofList_injective h))
  exact (List.map_injective_iff.mpr fun _ _ heq ↦ Value.string.inj heq) hvalue

/-- The text of a count matches the pattern. -/
theorem digits?_printNat (n : ℕ) : digits? (String.ofList (printNat n)) = some n := by
  have htake := @takeDigits_digits (Number.decimalDigits n) [] (by simp)
  have hdigits : (printNat n).all Char.isDigit = true := by
    have hdigit : ∀ digit : Fin 10, (digitChar digit).isDigit = true := by decide
    rw [printNat_eq, List.all_map, List.all_eq_true]
    exact fun digit _ ↦ hdigit digit
  have hne : String.ofList (printNat n) ≠ "" := by
    intro hempty
    have hnil : printNat n = [] := String.ofList_injective hempty
    rw [printNat_eq, List.map_eq_nil_iff] at hnil
    exact Number.decimalDigits_ne_nil n hnil
  rw [List.append_nil] at htake
  unfold digits?
  rw [String.toList_ofList, if_pos ⟨hne, hdigits⟩, printNat_eq, htake,
    Number.digitsValue_decimalDigits]

theorem received_eq {n : ℕ} (h : n ≤ 2 ^ 53) : received n = .finite n := by
  have hsmall : |(n : ℤ)| ≤ 2 ^ 53 := by
    rw [abs_of_nonneg (by positivity)]
    exact_mod_cast h
  exact_mod_cast JsNumber.ofRat_intCast hsmall

theorem eraseDups_of_nodup {texts : List String} (h : texts.Nodup) : texts.eraseDups = texts := by
  induction texts with
  | nil => rfl
  | cons first rest ih =>
    rw [List.nodup_cons] at h
    have hkept : (rest.filter fun text ↦ !text == first) = rest := by
      apply List.filter_eq_self.mpr
      intro text htext
      have hne : text ≠ first := fun heq ↦ h.1 (heq ▸ htext)
      simpa using hne
    rw [List.eraseDups_cons, hkept, ih h.2]

/-! ## Answers -/

section Answers

variable {runtime : Runtime} {hash : HashOrder} {serde : Serde} {sources : List Tables.Source}
  {db : Database} {query : RecordQuery} {view : StatusGridView} {offset : ℕ}
  {records : SnapshotRecordsResponse} {counts : Core.SnapshotAggregateResponse}

/-- Both responses are of these records. -/
structure Answered (query : RecordQuery) (view : StatusGridView) (snapshots : List StoredSnapshot)
    (rows page : List Record) (columns : List String) (records : SnapshotRecordsResponse)
    (counts : Core.SnapshotAggregateResponse) : Prop where
  listed : ∀ row ∈ page, row ∈ rows
  distinct : (page.map (Record.identityText view.idPaths)).Nodup
  fields : columns.Nodup ∧ ∀ path ∈ view.shadePath, path ∈ columns ∧ Resolvable path
  shownRows : records.table.rows = page.map (Record.shownRow columns)
  identities : records.identities = page.map (Record.identityText view.idPaths)
  total : records.table.total = rows.length
  pins : records.table.snapshots.map TableSource.snapshotId = snapshots.map idText
  loaded : ∀ row ∈ rows, row.snapshot ∈ snapshots
  matched : counts.matchedRows = rows.length
  offset : counts.offset = 0
  small : rows.length ≤ MAX_TABLE_NODES
  shown : counts.totalGroups ≤ 128 → counts.groups.length = counts.totalGroups ∧
    AllShown (countsQuery query view none) rows counts.groups

theorem columns_of_validate {request : TableRowsRequest} {maximum : ℕ}
    (h : validateRowsLimit request maximum = .ok ()) :
    ∀ columns ∈ request.columns, columns.Nodup := by
  simp only [validateRowsLimit, bind_eq_ok, forM_eq_ok, exists_unit, reject_ok, not_not] at h
  obtain ⟨-, -, -, hcolumns, -⟩ := h
  intro columns hsome
  exact (hcolumns columns (Option.mem_toList.mpr hsome)).2.1

theorem mem_columns {path : String} (h : path ∈ view.shadePath) :
    path ∈ (view.idPaths ++ view.statusPath :: [view.labelPath, view.groupPath,
      view.valuePath, view.shadePath].reduceOption).eraseDups := by
  have hpath : path ∈ [view.labelPath, view.groupPath, view.valuePath,
      view.shadePath].reduceOption := by
    have hshade : some path = view.shadePath := h.symm
    rw [List.reduceOption_mem_iff, hshade]
    simp
  exact List.mem_eraseDups.mpr (List.mem_append_right _ (List.mem_cons_of_mem _ hpath))

/-- What the server answered, when both reads were of one state. -/
theorem answered_of_reads
    (hrecords : snapshotRecordsPage runtime serde (recordsQuery query view offset none) sources db =
      .ok records)
    (hcounts : Tables.snapshotAggregate runtime (countsQuery query view none) hash serde sources db =
      .ok counts) :
    ∃ snapshots page columns,
      tableSnapshots serde sources db runtime none true = .ok snapshots ∧
      Answered query view snapshots
        (matching runtime (aggregateTable (countsQuery query view none)) snapshots) page columns
        records counts := by
  have hvalid : validateRowsLimit (recordsQuery query view offset none).tableRequest
      MAX_SNAPSHOT_RECORDS_PAGE = .ok () := by
    simp only [snapshotRecordsPage, bind_eq_ok, exists_unit] at hrecords
    exact hrecords.2.1
  obtain ⟨snapshots, scan, _, hsnapshots, hscan, hrows, hscoped, rfl⟩ :=
    snapshotRecordsPage_ok hrecords
  obtain ⟨snapshots', _, _, output, _, _, _, hsnapshots', -, -, -, hshown, hsmall, rfl⟩ :=
    snapshotAggregate_ok hcounts
  obtain rfl := Except.ok.inj (hsnapshots.symm.trans hsnapshots')
  have hcolumns : scan.columns = (recordsQuery query view offset none).columns.getD [] :=
    columns_of_records (by decide) hscan _ rfl
  have hnodup : scan.columns.Nodup := by
    rw [hcolumns]
    exact columns_of_validate hvalid _ rfl
  have hshade : ∀ path ∈ view.shadePath, path ∈ scan.columns ∧ Resolvable path := by
    intro path hpath
    rw [hcolumns]
    exact ⟨mem_columns hpath, (resolves_of_validate hvalid).columns _ rfl path (mem_columns hpath)⟩
  -- the filters and the search of both requests are the same
  have hsame : scan.rows = matching runtime (aggregateTable (countsQuery query view none)) snapshots :=
    hrows
  have hperm := hscoped.perm_recordListing view.sort
  have hsublist := ((recordListing view.sort view.idPaths snapshots scan.rows).drop
    offset).take_sublist 1000 |>.trans (List.drop_sublist offset _)
  refine ⟨snapshots, ((recordListing view.sort view.idPaths snapshots scan.rows).drop offset).take
    1000, scan.columns, hsnapshots, ?_⟩
  rw [← hsame] at hshown hsmall ⊢
  constructor
  · exact fun row hrow ↦ hperm.subset (hsublist.subset hrow)
  · have hall := (hperm.map (Record.identityText view.idPaths)).nodup_iff.mpr
      hscoped.nodup_identityText
    exact hall.sublist (hsublist.map _)
  · exact ⟨hnodup, hshade⟩
  · rfl
  · rfl
  · rfl
  · exact evidence_ids (tableSnapshots_source hsnapshots)
  · exact hscoped.snapshot
  · rfl
  · rfl
  · exact hsmall
  · intro hfew
    have hgroups := perm_groupListing none output
    have hpage : ((groupListing none output).drop 0).take 128 = groupListing none output := by
      rw [List.drop_zero, List.take_of_length_le]
      rw [hgroups.length_eq]
      exact hfew
    constructor
    · dsimp only [countsQuery]
      rw [hpage, hgroups.length_eq]
    · dsimp only [countsQuery]
      rw [hpage]
      exact hshown.perm hgroups

end Answers

/-! ## Accepted tasks -/

section Client

variable {query : RecordQuery} {view : StatusGridView} {snapshots : List StoredSnapshot}
  {rows page : List Record} {columns : List String} {records : SnapshotRecordsResponse}
  {counts : Core.SnapshotAggregateResponse}

/-- Every series is of a snapshot of the page. -/
theorem Answered.pinned (h : Answered query view snapshots rows page columns records counts)
    (hfew : counts.totalGroups ≤ 128) : ∀ shown ∈ counts.groups, ∀ series ∈ shown.series,
      series.snapshotId ∈ records.table.snapshots.map TableSource.snapshotId := by
  intro shown hshown series hseries
  obtain ⟨row, hrow, -, hid⟩ := (((h.shown hfew).2.shown shown hshown).series series hseries).snapshot
  rw [h.pins, hid]
  exact List.mem_map_of_mem (h.loaded row hrow)

theorem taskKey_injective {row other : Record} {paths : List String}
    (h : (statusTask view (row.shownRow columns) (row.identityText paths)).key =
      (statusTask view (other.shownRow columns) (other.identityText paths)).key) :
    row.identityText paths = other.identityText paths := by
  have htexts := stringify_injective h
  simp only [List.cons.injEq, and_true] at htexts
  exact htexts.2.2

theorem identityText_ne_empty (row : Record) (paths : List String) : row.identityText paths ≠ "" := by
  intro hempty
  have hnil : (row.identityText paths).toList = [] := by rw [hempty]; rfl
  unfold Record.identityText Tables.identityText at hnil
  rw [String.toList_ofList] at hnil
  cases hnil

/-- Records with identities of their own become tasks. -/
theorem collectTasks_ok {seen : List String}
    (hdistinct : (page.map (Record.identityText view.idPaths)).Nodup)
    (hfresh : ∀ row ∈ page,
      (statusTask view (row.shownRow columns) (row.identityText view.idPaths)).key ∉ seen) :
    collectTasks view seen ((page.map (Record.shownRow columns)).zip
        (page.map (Record.identityText view.idPaths))) =
      .ok (page.map fun row ↦
        statusTask view (row.shownRow columns) (row.identityText view.idPaths)) := by
  induction page generalizing seen with
  | nil => rfl
  | cons row rest ih =>
    rw [List.map_cons, List.nodup_cons] at hdistinct
    rw [List.forall_mem_cons] at hfresh
    have hrest := ih hdistinct.2 (fun other hother hmem ↦ by
      obtain heq | hmem := List.mem_cons.mp hmem
      · exact hdistinct.1 (List.mem_map.mpr ⟨other, hother, taskKey_injective heq⟩)
      · exact hfresh.2 other hother hmem)
    rw [List.map_cons, List.map_cons, List.zip_cons_cons, collectTasks]
    simp only [bind_eq_ok, exists_unit, reject_ok]
    exact ⟨identityText_ne_empty row _, hfresh.1, _, hrest, rfl⟩

theorem Answered.tasks (h : Answered query view snapshots rows page columns records counts) :
    ∃ tasks, statusTasks records view = .ok tasks ∧
      ∀ task ∈ tasks, ∃ row ∈ page, task.record = row.shownRow columns := by
  have hcollected := @collectTasks_ok view page columns [] h.distinct (by simp)
  refine ⟨StableSort.sortOn (fun task ↦ utf16 task.group) (page.map fun row ↦
    statusTask view (row.shownRow columns) (row.identityText view.idPaths)),
    bind_eq_ok.mpr ⟨(), reject_ok.mpr ?_, bind_eq_ok.mpr ⟨_, ?_, rfl⟩⟩, ?_⟩
  · rw [h.shownRows, h.identities, List.length_map, List.length_map]
    exact not_not.mpr rfl
  · rw [h.shownRows, h.identities]
    exact hcollected
  · intro task htask
    rw [StableSort.mem_sortOn] at htask
    obtain ⟨row, hrow, rfl⟩ := List.mem_map.mp htask
    exact ⟨row, hrow, rfl⟩

/-! ## Accepted counts -/

/-- The records at a place. -/
def placeCount (request : SnapshotAggregateRequest) (rows : List Record) (place : Place) : ℕ :=
  (group (rowPlace request) rows place).length

/-- The count of a series is the number of its records. -/
theorem seriesCount_ok {key : String} {series : Core.SnapshotAggregateSeries}
    (h : SeriesShown (countsQuery query view none) rows key series) :
    (∃ value, series.measures.get? "count" = some value ∧ value.value = numericCell (printNat
      (placeCount (countsQuery query view none) rows (seriesPlace key series)))) ∧
    seriesCount series =
      .ok (placeCount (countsQuery query view none) rows (seriesPlace key series)) := by
  obtain ⟨value, hvalue, hdescribes, hspelled⟩ := h.measured ⟨"count", .count, none⟩ List.mem_cons_self
  have hall : value.count = placeCount (countsQuery query view none) rows (seriesPlace key series) := by
    rw [hdescribes.count, cellsAt, List.countP_map, placeCount]
    apply List.countP_eq_length.mpr
    intro row _
    rfl
  have hcell := hspelled.counts rfl
  rw [hall] at hcell
  refine ⟨⟨value, hvalue, hcell⟩, ?_⟩
  unfold seriesCount
  rw [hvalue, Option.map_some, hcell]
  dsimp only [numericCell]
  rw [if_pos ⟨rfl, rfl⟩, digits?_printNat]

/-- A loop that adds counts. -/
theorem foldlM_counts {shown : List Core.SnapshotAggregateSeries}
    {size : Core.SnapshotAggregateSeries → ℕ}
    (h : ∀ series ∈ shown, seriesCount series = .ok (size series)) (start : ℕ) :
    shown.foldlM (fun count series ↦ do return count + (← seriesCount series)) start =
      .ok (start + (shown.map size).sum) := by
  induction shown generalizing start with
  | nil => rfl
  | cons series rest ih =>
    rw [List.forall_mem_cons] at h
    rw [List.foldlM_cons, h.1]
    apply (ih h.2 (start + size series)).trans
    rw [List.map_cons, List.sum_cons, Nat.add_assoc]

theorem foldlM_totals {shown : List SnapshotAggregateGroup}
    {size : SnapshotAggregateGroup → Core.SnapshotAggregateSeries → ℕ}
    {totals : List (String × String)} {all : ℕ}
    (h : ∀ one ∈ shown, ∀ series ∈ one.series, seriesCount series = .ok (size one series))
    (hdistinct : (shown.map SnapshotAggregateGroup.key).Nodup)
    (hfresh : ∀ one ∈ shown, one.key ∉ totals.map Prod.fst) :
    ∃ totals', shown.foldlM addTotals (totals, all) =
      .ok (totals', all + (shown.flatMap fun one ↦ one.series.map (size one)).sum) := by
  induction shown generalizing totals all with
  | nil => exact ⟨totals, rfl⟩
  | cons one rest ih =>
    rw [List.forall_mem_cons] at h hfresh
    rw [List.map_cons, List.nodup_cons] at hdistinct
    obtain ⟨totals', hrest⟩ := @ih (totals ++ [(one.key, String.ofList (printNat
        (0 + (one.series.map (size one)).sum)))]) (all + (0 + (one.series.map (size one)).sum))
      h.2 hdistinct.2 (by
        intro other hother hmem
        rw [List.map_append, List.mem_append] at hmem
        obtain hmem | hmem := hmem
        · exact hfresh.2 other hother hmem
        · exact hdistinct.1 (List.mem_map.mpr ⟨other, hother, List.mem_singleton.mp hmem⟩))
    refine ⟨totals', ?_⟩
    rw [List.foldlM_cons, List.flatMap_cons, List.sum_append, ← Nat.add_assoc]
    rw [Nat.zero_add] at hrest
    apply bind_eq_ok.mpr
    refine ⟨_, ?_, hrest⟩
    simp only [addTotals, bind_eq_ok, exists_unit, reject_ok]
    exact ⟨hfresh.1, _, foldlM_counts h.1 0, by rw [Nat.zero_add]; rfl⟩

theorem Answered.totals (h : Answered query view snapshots rows page columns records counts)
    (hfew : counts.totalGroups ≤ 128) : ∃ totals, statusTotals counts = .ok totals := by
  obtain ⟨hcomplete, hshown⟩ := h.shown hfew
  have hsmall : rows.length < 2 ^ 53 := lt_of_le_of_lt h.small (by decide)
  have hsafe : Shading.isSafeInteger (received counts.matchedRows) = true := by
    rw [h.matched, received_eq hsmall.le]
    exact Shading.isSafeInteger_finite hsmall
  obtain ⟨totals, htotals⟩ := @foldlM_totals counts.groups _ [] 0
    (fun one hone series hseries ↦ (seriesCount_ok ((hshown.shown one hone).series series hseries)).2)
    hshown.keys (by simp)
  have hcovered : (counts.groups.flatMap fun one ↦ one.series.map fun series ↦
      placeCount (countsQuery query view none) rows (seriesPlace one.key series)).sum =
        rows.length := by
    have hsum := Grouping.sum_length_group hshown.places hshown.covers
    rw [List.map_flatMap] at hsum
    simp only [groupPlaces, List.map_map] at hsum
    exact hsum
  refine ⟨totals, bind_eq_ok.mpr ⟨(), reject_ok.mpr ?_, bind_eq_ok.mpr ⟨_, htotals, ?_⟩⟩⟩
  · rintro (hbroken | hoffset | hlength | hmany)
    · rw [hsafe] at hbroken
      cases hbroken
    · exact hoffset h.offset
    · exact hlength hcomplete
    · omega
  · simp only [bind_eq_ok, exists_unit, reject_ok]
    refine ⟨?_, rfl⟩
    rw [Nat.zero_add, hcovered, h.matched]
    exact not_not.mpr rfl

end Client

/-! ## Accepted shades -/

/-- The numbers at a place, in the order of its records. -/
def placeNumbers (request : SnapshotAggregateRequest) (rows : List Record) (path : String)
    (place : Place) : List Number :=
  numbers ((group (rowPlace request) rows place).map fun row ↦ some (row.cell path))

/-- The text of a number can be decoded. -/
abbrev Short (number : Number) : Prop := codeUnits (String.ofList number.chars) ≤ 1024

theorem mem_placeNumbers {request : SnapshotAggregateRequest} {rows : List Record} {path : String}
    {place : Place} {token : Number} : token ∈ placeNumbers request rows path place ↔
      ∃ row ∈ group (rowPlace request) rows place, row.cell path = .value (.number token) := by
  unfold placeNumbers numbers
  rw [List.filterMap_map, List.mem_filterMap]
  refine exists_congr fun row ↦ and_congr_right fun _ ↦ ⟨fun htoken ↦ ?_, fun hcell ↦ ?_⟩
  · exact Option.some.inj (eq_of_numberOf htoken)
  · rw [Function.comp_apply, hcell]
    rfl

theorem length_placeNumbers (request : SnapshotAggregateRequest) (rows : List Record)
    (path : String) (place : Place) :
    (placeNumbers request rows path place).length ≤ placeCount request rows place := by
  unfold placeNumbers numbers placeCount
  exact (List.length_filterMap_le _ _).trans (List.length_map _).le

theorem cellsAt_eq {request : SnapshotAggregateRequest} {rows : List Record} {path : String}
    (hpath : Resolvable path) (place : Place) {measure : SnapshotMeasure}
    (hmeasure : measure.path = some path) :
    numbers (cellsAt request rows place measure) = placeNumbers request rows path place := by
  unfold cellsAt placeNumbers
  congr 1
  apply List.map_congr_left
  intro row _
  rw [measuredCell, hmeasure, Option.map_some, cell_new hpath]

theorem denotes_chars {token : Number} (h : Short token) :
    Shading.Denotes (String.ofList token.chars) token.toRat := by
  refine ⟨h, token, ?_, rfl⟩
  rw [String.toList_ofList, Number.read_chars]

/-- Without its sign, a number is not longer. -/
theorem short_unsigned {token : Number} (h : Short token) : Short (unsigned token) := by
  have hsublist : (unsigned token).chars.Sublist token.chars := by
    rw [← chars_unsigned]
    exact List.dropWhile_sublist _
  have hunits : codeUnits (String.ofList (unsigned token).chars) ≤
      codeUnits (String.ofList token.chars) := by
    unfold codeUnits
    rw [String.toList_ofList, String.toList_ofList]
    exact (hsublist.map _).sum_le_sum fun _ _ ↦ Nat.zero_le _
  exact hunits.trans h

/-- The number found least is shown. -/
theorem showsLeast_of_least {α : Type} [LinearOrder α] {rank : Number → α} {key : ℚ → ℚ}
    {spell : Number → Number} {known : List Number} {found : Option Number}
    (h : Least rank known found) (hne : known ≠ [])
    (hrank : ∀ a b, rank a ≤ rank b → key (spell a).toRat ≤ key (spell b).toRat)
    (hshort : ∀ token ∈ known, Short (spell token)) :
    Shading.ShowsLeast key (foundCell (found.map spell))
      (known.map fun token ↦ (spell token).toRat) := by
  obtain ⟨token, rfl⟩ := Option.ne_none_iff_exists'.mp (mt h.none_iff.mp hne)
  obtain ⟨hmem, hleast⟩ := h.least token rfl
  refine ⟨_, rfl, (spell token).toRat, List.mem_map_of_mem hmem, denotes_chars (hshort token hmem), ?_⟩
  intro y hy
  obtain ⟨other, hother, rfl⟩ := List.mem_map.mp hy
  exact hrank token other (hleast other hother)

theorem magnitudes_map (known : List Number) : Shading.magnitudes (known.map Number.toRat) =
    (nonzero known).map fun token ↦ (unsigned token).toRat := by
  unfold Shading.magnitudes nonzero
  rw [List.filter_map, List.map_map]
  apply List.map_congr_left
  intro token _
  exact (toRat_unsigned token).symm

section Shades

variable {query : RecordQuery} {view : StatusGridView} {rows : List Record} {path key : String}
  {series : Core.SnapshotAggregateSeries} {number : String → JsNumber}

/-- What a series shows is in the range of its numbers. -/
theorem ranges_of_shown
    (hnumber : ∀ n < 2 ^ 53, number (String.ofList (printNat n)) = .finite n)
    (hpath : path ∈ view.shadePath) (hresolvable : Resolvable path) (hsmall : rows.length < 2 ^ 53)
    (hshort : ∀ row ∈ rows, ∀ token, row.cell path = .value (.number token) → Short token)
    (h : SeriesShown (countsQuery query view none) rows key series) :
    Shading.Ranges number (receivedSeries series)
      ((placeNumbers (countsQuery query view none) rows path (seriesPlace key series)).map
        Number.toRat) := by
  have hmeasures : (countsQuery query view none).measures =
      [⟨"count", .count, none⟩, ⟨"shade_min", .min, some path⟩, ⟨"shade_max", .max, some path⟩] := by
    rw [countsQuery, Option.mem_def.mp hpath]
    rfl
  have hmember := h.measured
  rw [hmeasures] at hmember
  obtain ⟨low, hlow, hlowDescribed, hlowSpelled⟩ := hmember ⟨"shade_min", .min, some path⟩ (by simp)
  obtain ⟨high, hhigh, hhighDescribed, hhighSpelled⟩ := hmember ⟨"shade_max", .max, some path⟩
    (by simp)
  have hplace : ∀ token ∈ placeNumbers (countsQuery query view none) rows path
      (seriesPlace key series), Short token := by
    intro token htoken
    obtain ⟨row, hrow, hcell⟩ := mem_placeNumbers.mp htoken
    exact hshort row (Grouping.mem_group.mp hrow).1 token hcell
  have hcount : placeCount (countsQuery query view none) rows (seriesPlace key series) < 2 ^ 53 :=
    lt_of_le_of_lt (List.length_filter_le _ _) hsmall
  have hknown := length_placeNumbers (countsQuery query view none) rows path (seriesPlace key series)
  have hlowCount := hlowDescribed.count
  have hhighCount := hhighDescribed.count
  obtain ⟨least, hleast, hlowCell⟩ := hlowSpelled.minimum rfl
  obtain ⟨greatest, hgreatest, hhighCell⟩ := hhighSpelled.maximum rfl
  obtain ⟨smallest, hsmallest, hmagnitude⟩ := hlowSpelled.magnitude rfl
  rw [countP_counted (by simp)] at hlowCount hhighCount
  rw [cellsAt_eq hresolvable _ rfl] at hlowCount hhighCount hleast hgreatest hsmallest
  generalize placeNumbers (countsQuery query view none) rows path (seriesPlace key series) = known
    at hplace hknown hlowCount hhighCount hleast hgreatest hsmallest ⊢
  constructor
  · obtain ⟨value, hvalue, hcell⟩ := (seriesCount_ok h).1
    refine ⟨_, by rwa [List.length_map], hcount, ?_⟩
    unfold Shading.counted receivedSeries
    dsimp only
    rw [hvalue, Option.map_some, Option.map_some, Option.getD_some, receivedValue, hcell]
    exact hnumber _ hcount
  · refine ⟨receivedValue low, receivedValue high, ?_, ?_, ?_, ?_, fun hnone ↦ ?_, fun hne ↦ ?_,
      fun hne ↦ ?_⟩
    · exact congrArg (Option.map receivedValue) hlow
    · exact congrArg (Option.map receivedValue) hhigh
    · rw [List.length_map, ← hlowCount]
      exact received_eq (by omega)
    · rw [List.length_map, ← hhighCount]
      exact received_eq (by omega)
    · have hempty := List.map_eq_nil_iff.mp hnone
      rw [receivedValue, receivedValue, hlowCell, hhighCell, hleast.none_iff.mpr hempty,
        hgreatest.none_iff.mpr hempty]
      exact ⟨rfl, rfl⟩
    · have hfilled : known ≠ [] := mt List.map_eq_nil_iff.mpr hne
      constructor
      · have hshows := @showsLeast_of_least _ _ _ id id _ _ hleast hfilled (fun _ _ hle ↦ hle) hplace
        rw [Option.map_id] at hshows
        rw [receivedValue, hlowCell]
        exact hshows
      · have hshows := @showsLeast_of_least _ _ _ Neg.neg id _ _ hgreatest hfilled
          (fun _ _ hle ↦ neg_le_neg (OrderDual.toDual_le_toDual.mp hle)) hplace
        rw [Option.map_id] at hshows
        rw [receivedValue, hhighCell]
        exact hshows
    · rw [magnitudes_map] at hne ⊢
      refine ⟨_, hmagnitude, ?_⟩
      apply showsLeast_of_least hsmallest (mt List.map_eq_nil_iff.mpr hne)
      · intro a b hle
        rw [toRat_unsigned, toRat_unsigned]
        exact hle
      · exact fun token htoken ↦ short_unsigned (hplace token (List.mem_of_mem_filter htoken))

end Shades

theorem clip_of_fits {room : ℕ} {text : List Char} (h : String.utf8Len text ≤ room) :
    clip room text = text := by
  induction text generalizing room with
  | nil => rw [clip]
  | cons c rest ih =>
    rw [String.utf8Len_cons] at h
    rw [clip, if_pos (by omega), ih (by omega)]

/-- What is decoded of a previewed number. -/
theorem preview_number (token : Number) :
    (preview (.value (.number token))).truncated = true ∨
      preview (.value (.number token)) = Shading.numberCell (String.ofList token.chars) := by
  have hpreview : preview (.value (.number token)) =
      Tables.shown .number token.chars false := rfl
  rw [hpreview, Tables.shown, Shading.numberCell]
  by_cases hlong : String.utf8Len token.chars > MAX_CELL_BYTES
  · left
    simp [hlong]
  · right
    rw [clip_of_fits (not_lt.mp hlong)]
    simp [hlong]

theorem preview_kind {cell : Cell} (h : (preview cell).kind = .number) :
    ∃ token, cell = .value (.number token) := by
  cases cell with
  | key text => cases h
  | missing => cases h
  | value value =>
    cases value with
    | number token => exact ⟨token, rfl⟩
    | null | bool | string | array | object => cases h

/-- A cell that shows no number, or a part of one, has no shade. -/
theorem shade_of_preview {logDistance} (hmeasures : Shading.Measures logDistance)
    {scale : Shading.Scale} {domain : Shading.ShadeDomain} {known : List ℚ}
    (hcovers : domain.Covers scale known) {cell : Cell}
    (h : ∀ token, cell = .value (.number token) → Short token ∧ token.toRat ∈ known) :
    ∃ shade, Shading.statusShade logDistance (some (preview cell)) domain = .ok shade := by
  by_cases hplain : (preview cell).kind ≠ .number ∨ (preview cell).truncated = true
  · refine ⟨none, ?_⟩
    unfold Shading.statusShade Shading.decimal
    dsimp only
    rw [if_pos hplain]
    rfl
  · rw [not_or, not_not] at hplain
    obtain ⟨token, rfl⟩ := preview_kind hplain.1
    obtain ⟨hshort, hmem⟩ := h token rfl
    rw [(preview_number token).resolve_left hplain.2]
    obtain ⟨shade, hshade⟩ := Shading.statusShade_ok hmeasures hcovers (denotes_chars hshort) hmem
    exact ⟨some shade, hshade⟩

section Validation

variable {query : RecordQuery} {view : StatusGridView} {snapshots : List StoredSnapshot}
  {rows page : List Record} {columns : List String} {records : SnapshotRecordsResponse}
  {counts : Core.SnapshotAggregateResponse} {number : String → JsNumber}
  (logarithm : Shading.Decimal → Shading.Decimal → ℤ → JsNumber)

/-- The numbers of all series, one list for each. -/
def frameNumbers (request : SnapshotAggregateRequest) (rows : List Record) (path : String)
    (groups : List SnapshotAggregateGroup) : List (List ℚ) :=
  (groups.flatMap groupPlaces).map fun place ↦
    (placeNumbers request rows path place).map Number.toRat

theorem length_frameNumbers {request : SnapshotAggregateRequest}
    {groups : List SnapshotAggregateGroup} (h : AllShown request rows groups) (path : String) :
    (frameNumbers request rows path groups).flatten.length ≤ rows.length := by
  have hsum := Grouping.sum_length_group h.places h.covers
  unfold frameNumbers
  rw [List.length_flatten, List.map_map, ← hsum]
  apply List.sum_le_sum
  intro place _
  rw [Function.comp_apply, List.length_map]
  exact length_placeNumbers request rows path place

theorem mem_frameNumbers {request : SnapshotAggregateRequest} {path : String}
    {groups : List SnapshotAggregateGroup} (h : AllShown request rows groups) {row : Record}
    (hrow : row ∈ rows) {token : Number} (hcell : row.cell path = .value (.number token)) :
    token.toRat ∈ (frameNumbers request rows path groups).flatten := by
  obtain ⟨place, hplace, hkey⟩ := h.covers row hrow
  apply List.mem_flatten_of_mem (List.mem_map_of_mem hplace)
  exact List.mem_map_of_mem
    (mem_placeNumbers.mpr ⟨row, Grouping.mem_group.mpr ⟨hrow, hkey⟩, hcell⟩)

/-- The numbers that the tasks are shaded by can be decoded. -/
def ShortShades (view : StatusGridView) (rows : List Record) : Prop :=
  ∀ path ∈ view.shadePath, ∀ row ∈ rows, ∀ token, row.cell path = .value (.number token) →
    Short token

theorem Answered.shades (h : Answered query view snapshots rows page columns records counts)
    (hnumber : ∀ n < 2 ^ 53, number (String.ofList (printNat n)) = .finite n)
    (hfew : counts.totalGroups ≤ 128) (hshort : ShortShades view rows) {tasks : List StatusTask}
    (htasks : ∀ task ∈ tasks, ∃ row ∈ page, task.record = row.shownRow columns) :
    ∀ path ∈ view.shadePath, checkShades number logarithm counts view tasks path = .ok () := by
  intro path hpath
  obtain ⟨-, hshown⟩ := h.shown hfew
  obtain ⟨hcolumn, hresolvable⟩ := h.fields.2 path hpath
  have hsmall : rows.length < 2 ^ 53 := lt_of_le_of_lt h.small (by decide)
  have hmeasures : Shading.Measures (Shading.logDistance logarithm) :=
    fun _ _ _ ↦ Shading.logDistance_ok logarithm
  have hranges : List.Forall₂ (Shading.Ranges number)
      ((receivedCounts counts).groups.flatMap Shading.SnapshotAggregateGroup.series)
      (frameNumbers (countsQuery query view none) rows path counts.groups) := by
    have hleft : (receivedCounts counts).groups.flatMap Shading.SnapshotAggregateGroup.series =
        (counts.groups.flatMap fun one ↦ one.series.map fun series ↦ (one.key, series)).map
          fun entry ↦ receivedSeries entry.2 := by
      rw [receivedCounts, List.flatMap_map, List.map_flatMap]
      simp only [List.map_map, Function.comp_def]
    have hright : counts.groups.flatMap groupPlaces =
        (counts.groups.flatMap fun one ↦ one.series.map fun series ↦ (one.key, series)).map
          fun entry ↦ seriesPlace entry.1 entry.2 := by
      rw [List.map_flatMap]
      simp only [List.map_map, Function.comp_def]
      rfl
    rw [frameNumbers, hleft, hright, List.map_map, List.forall₂_map_left_iff,
      List.forall₂_map_right_iff, List.forall₂_same]
    intro entry hentry
    obtain ⟨one, hone, hentry⟩ := List.mem_flatMap.mp hentry
    obtain ⟨series, hseries, rfl⟩ := List.mem_map.mp hentry
    exact ranges_of_shown hnumber hpath hresolvable hsmall (hshort path hpath)
      ((hshown.shown one hone).series series hseries)
  have hmatched : (receivedCounts counts).matchedRows = .finite rows.length := by
    rw [receivedCounts, h.matched]
    exact received_eq hsmall.le
  obtain ⟨domain, hdomain, hcovers⟩ := Shading.statusShadeDomain_ok hmeasures (shadeScale view)
    hranges hmatched (length_frameNumbers hshown path) hsmall.le
  apply bind_eq_ok.mpr
  refine ⟨domain, hdomain, forM_eq_ok.mpr fun task htask ↦ ?_⟩
  obtain ⟨row, hrow, hrecord⟩ := htasks task htask
  have hcell : task.record.cells.get? path = some (preview (row.cell path)) := by
    rw [hrecord]
    apply OrderedMap.get?_ofList_of_mem
    · rw [List.map_map, Function.comp_def, List.map_id']
      exact h.fields.1
    · exact List.mem_map_of_mem hcolumn
  have hcovered : ∀ token, row.cell path = .value (.number token) → Short token ∧ token.toRat ∈
      (frameNumbers (countsQuery query view none) rows path counts.groups).flatten :=
    fun token htoken ↦ ⟨hshort path hpath row (h.listed row hrow) token htoken,
      mem_frameNumbers hshown (h.listed row hrow) htoken⟩
  obtain ⟨shade, hshade⟩ := shade_of_preview hmeasures hcovers hcovered
  rw [hcell, hshade]
  rfl

/-- Nothing in the answers is refused. -/
theorem Answered.validated (h : Answered query view snapshots rows page columns records counts)
    (hnumber : ∀ n < 2 ^ 53, number (String.ofList (printNat n)) = .finite n)
    (hfew : counts.totalGroups ≤ 128) (hshort : ShortShades view rows) :
    validateStatusFrame number logarithm records counts view = .ok () := by
  obtain ⟨tasks, htasks, hrecords⟩ := h.tasks
  obtain ⟨totals, htotals⟩ := h.totals hfew
  have hpinned := h.pinned hfew
  simp only [validateStatusFrame, bind_eq_ok, exists_unit, reject_ok, forM_eq_ok, not_lt, not_or]
  refine ⟨hfew, ⟨?_, ?_⟩, tasks, htasks, totals, htotals, fun path hpath ↦ ?_⟩
  · rw [h.matched, h.total]
    exact not_not.mpr rfl
  · simpa using hpinned
  · exact h.shades logarithm hnumber hfew hshort hrecords path (Option.mem_toList.mp hpath)

end Validation

/-! ## Frames of one state -/

/-- Why a frame that the server answered is refused. -/
inductive Refused (message : String) (view : StatusGridView) (rows : List Record)
    (counts : Core.SnapshotAggregateResponse) : Prop where
  | many (hmessage : message = tooManyStates) (hmany : counts.totalGroups > 128)
  | long (hlong : ¬ ShortShades view rows)

/-- A page and the counts are of one state of the database. -/
structure OfState (runtime : Runtime) (hash : HashOrder) (serde : Serde)
    (registrations : Registrations) (query : RecordQuery) (view : StatusGridView) (page : ℕ)
    (db : Database) (records : SnapshotRecordsResponse)
    (counts : Core.SnapshotAggregateResponse) : Prop where
  records : registrations.snapshotRecords runtime serde (recordsQuery query view page none) db =
    .ok records
  counts : registrations.snapshotAggregate runtime hash serde (countsQuery query view none) db =
    .ok counts

/-- The records that a panel is of. -/
def panelRows (runtime : Runtime) (serde : Serde) (registrations : Registrations)
    (query : RecordQuery) (view : StatusGridView) (db : Database) : Except EngineError (List Record) := do
  let sources ← registrations.tableSources runtime query.runIds query.sourceIds
  let snapshots ← tableSnapshots serde sources db runtime none true
  return matching runtime (aggregateTable (countsQuery query view none)) snapshots

section Reads

variable {runtime : Runtime} {hash : HashOrder} {serde : Serde} {registrations : Registrations}
  {query : RecordQuery} {view : StatusGridView} {page offset : ℕ} {db first second third : Database}
  {records : SnapshotRecordsResponse} {counts : Core.SnapshotAggregateResponse}
  {number : String → JsNumber} {logarithm : Shading.Decimal → Shading.Decimal → ℤ → JsNumber}

theorem pinsOf_eq (h : Told runtime serde registrations query.runIds query.sourceIds db
    records.table.snapshots) : pinsOf records = records.table.snapshots.map TableSource.snapshotId := by
  obtain ⟨sources, snapshots, path, -, -, hsnapshots, hevidence⟩ := h
  apply eraseDups_of_nodup
  rw [hevidence, evidence_ids (tableSnapshots_source hsnapshots)]
  exact nodup_idText (tableSnapshots_ids hsnapshots)

/-- What is read of one state is accepted, or refused for what it is. -/
theorem OfState.validated (h : OfState runtime hash serde registrations query view page db records counts)
    (hnumber : ∀ n < 2 ^ 53, number (String.ofList (printNat n)) = .finite n) :
    ∃ rows, panelRows runtime serde registrations query view db = .ok rows ∧
      ∀ message, validateStatusFrame number logarithm records counts view = .error message →
        Refused message view rows counts := by
  obtain ⟨-, sources, hsources, hrecords⟩ := readTable_ok h.records
  obtain ⟨-, sources', hsources', hcounts⟩ := readTable_ok h.counts
  obtain rfl := Except.ok.inj (hsources.symm.trans hsources')
  obtain ⟨snapshots, _, columns, hsnapshots, hanswered⟩ := answered_of_reads hrecords hcounts
  refine ⟨matching runtime (aggregateTable (countsQuery query view none)) snapshots, ?_, ?_⟩
  · simp only [panelRows, bind_eq_ok, pure_eq_ok]
    exact ⟨sources, hsources, snapshots, hsnapshots, rfl⟩
  · intro message hrefused
    by_cases hmany : counts.totalGroups > 128
    · refine .many ?_ hmany
      rw [validateStatusFrame, reject, if_pos hmany] at hrefused
      exact (Except.error.inj hrefused).symm
    · refine .long fun hshort ↦ ?_
      rw [hanswered.validated logarithm hnumber (not_lt.mp hmany) hshort] at hrefused
      cases hrefused

theorem total_of_page (h : registrations.snapshotRecords runtime serde
    (recordsQuery query view page none) db = .ok records) :
    ∃ rows, panelRows runtime serde registrations query view db = .ok rows ∧
      records.table.total = rows.length := by
  obtain ⟨-, sources, hsources, hrecords⟩ := readTable_ok h
  obtain ⟨snapshots, scan, _, hsnapshots, -, hrows, -, rfl⟩ := snapshotRecordsPage_ok hrecords
  refine ⟨scan.rows, ?_, rfl⟩
  simp only [panelRows, bind_eq_ok, pure_eq_ok]
  exact ⟨sources, hsources, snapshots, hsnapshots, hrows.symm⟩

/-- The page that is shown is the wanted one, or the last one. -/
theorem page_of_state (hconsistent : RowsValid first) (hlistable : Listable first)
    (hrange : ∀ row ∈ first.snapshots, row.InRange) (hgrows : Grows first second)
    (h : readRecords runtime serde registrations query view offset first second = .ok records) :
    registrations.snapshotRecords runtime serde
      (recordsQuery query view (min offset (lastPage records.table.total)) none) first =
        .ok records := by
  unfold readRecords at h
  obtain ⟨latest, hlatest, h⟩ := bind_eq_ok.mp h
  by_cases hbeyond : offset > lastPage latest.table.total
  · rw [if_pos hbeyond] at h
    have htold : Told runtime serde registrations query.runIds query.sourceIds first
        latest.table.snapshots := told_of_snapshotRecords rfl hlatest
    have hpast := htold.readsPast ⟨id, List.Perm.refl⟩ hconsistent hlistable hrange hgrows
    have hsame := hpast.records (recordsQuery query view (lastPage latest.table.total) none) rfl rfl
    rw [← pinsOf_eq htold] at hsame
    have hread := hsame.symm.trans h
    obtain ⟨rows, hrows, htotal⟩ := total_of_page hlatest
    obtain ⟨rows', hrows', htotal'⟩ := total_of_page hread
    obtain rfl := Except.ok.inj (hrows.symm.trans hrows')
    rw [htotal', ← htotal, min_eq_right hbeyond.le]
    exact hread
  · rw [if_neg hbeyond] at h
    obtain rfl := Except.ok.inj h
    rwa [min_eq_left (not_lt.mp hbeyond)]

/-- The answers are those of the state that was read first. -/
theorem ofState_of_reads (hconsistent : RowsValid first) (hlistable : Listable first)
    (hrange : ∀ row ∈ first.snapshots, row.InRange) (hsecond : Grows first second)
    (hthird : Grows first third)
    (hrecords : readRecords runtime serde registrations query view offset first second = .ok records)
    (hcounts : registrations.snapshotAggregate runtime hash serde
      (countsQuery query view (some (pinsOf records))) third = .ok counts) :
    OfState runtime hash serde registrations query view (min offset (lastPage records.table.total))
      first records counts := by
  have hread := page_of_state hconsistent hlistable hrange hsecond hrecords
  have htold : Told runtime serde registrations query.runIds query.sourceIds first
      records.table.snapshots := told_of_snapshotRecords rfl hread
  have hpast := (htold.readsPast hash hconsistent hlistable hrange hthird).aggregate
    (countsQuery query view none) rfl rfl
  rw [← pinsOf_eq htold] at hpast
  exact ⟨hread, hpast.symm.trans hcounts⟩

end Reads

section Runs

variable {serde : Serde} {store store' store'' : Store} {during after : List Action}

/-- Whatever is ingested between its reads, a frame is of the state of its first read; the checks
refuse no answer but for too many statuses or a number that is too long. -/
theorem status_frame_exact (hstore : store.Reachable serde)
    (hrange : ∀ row ∈ store.db.snapshots, row.InRange)
    (hsecond : store.run serde during = some store')
    (hthird : store'.run serde after = some store'') (runtime : Runtime) (hash : HashOrder)
    (registrations : Registrations) (number : String → JsNumber)
    (hnumber : ∀ n < 2 ^ 53, number (String.ofList (printNat n)) = .finite n)
    (logarithm : Shading.Decimal → Shading.Decimal → ℤ → JsNumber) (query : RecordQuery)
    (view : StatusGridView) (offset : ℕ) :
    (∀ frame, readStatusFrame number logarithm runtime hash serde registrations query view offset
        store.db store'.db store''.db = .ok frame →
      OfState runtime hash serde registrations query view
        (min offset (lastPage frame.records.table.total)) store.db frame.records frame.counts) ∧
    ∀ message, readStatusFrame number logarithm runtime hash serde registrations query view offset
        store.db store'.db store''.db = .error (.client message) →
      ∃ records counts rows, OfState runtime hash serde registrations query view
          (min offset (lastPage records.table.total)) store.db records counts ∧
        panelRows runtime serde registrations query view store.db = .ok rows ∧
        Refused message view rows counts := by
  have hconsistent := hstore.consistent.rows
  have hsecondGrows := (Store.run_consistent hstore.consistent hsecond).2
  have hthirdGrows := hsecondGrows.trans
    (Store.run_consistent (hstore.run hsecond).consistent hthird).2
  constructor
  · intro frame hframe
    simp only [readStatusFrame, bind_eq_ok, exists_unit, pure_eq_ok, mapError_eq_ok] at hframe
    obtain ⟨records, hrecords, counts, hcounts, -, rfl⟩ := hframe
    exact ofState_of_reads hconsistent hstore.listable hrange hsecondGrows hthirdGrows hrecords
      hcounts
  · intro message hframe
    simp only [readStatusFrame, bind_eq_error, mapError_eq_error, mapError_eq_ok] at hframe
    obtain ⟨_, -, hother⟩ | ⟨records, hrecords, hframe⟩ := hframe
    · cases hother
    obtain ⟨_, -, hother⟩ | ⟨counts, hcounts, hframe⟩ := hframe
    · cases hother
    obtain ⟨_, hrefused, hmessage⟩ | ⟨_, -, hdone⟩ := hframe
    · obtain rfl := FrameError.client.inj hmessage
      have hstate := ofState_of_reads hconsistent hstore.listable hrange hsecondGrows hthirdGrows
        hrecords hcounts
      obtain ⟨rows, hrows, hvalidated⟩ := hstate.validated hnumber
      exact ⟨records, counts, rows, hstate, hrows, hvalidated _ hrefused⟩
    · cases hdone

end Runs

/-- The losses as statuses and as shades. -/
def sampleView : StatusGridView where
  idPaths := ["/loss"]
  statusPath := "/loss"
  labelPath := none
  groupPath := none
  valuePath := none
  shadePath := some "/loss"
  shadeScale := some .linear
  density := .compact
  sort := none
  columns := none
  cellSize := none
  gap := none
  colors := none

def sampleQuery : RecordQuery := ⟨["run-1"], [], "/rows", "", []⟩

/-- `Number` of a text of digits. -/
def sampleNumber (text : String) : JsNumber := (digits? text).elim .nan received

theorem sampleNumber_printNat (n : ℕ) (h : n < 2 ^ 53) :
    sampleNumber (String.ofList (printNat n)) = .finite n := by
  rw [sampleNumber, digits?_printNat]
  exact received_eq h.le

/-- A page beyond the last one is read after a source has changed its table. -/
theorem status_frame_exact_sample :
    ∃ store store' frame, Store.init.run (.inverse sampleHistory) sampleListed = some store ∧
      store.run (.inverse sampleHistory) sampleContinued = some store' ∧
      readStatusFrame sampleNumber (fun _ _ _ ↦ .nan) sampleRuntime .kept (.inverse sampleHistory)
        sampleRegistered sampleQuery sampleView 2000 store.db store'.db store'.db = .ok frame ∧
      frame.records.table.total = 3 ∧
      OfState sampleRuntime .kept (.inverse sampleHistory) sampleRegistered sampleQuery sampleView 0
        store.db frame.records frame.counts := by
  have hrun : ((Store.init.run (.inverse sampleHistory) sampleListed).bind fun store ↦
      (store.run (.inverse sampleHistory) sampleContinued).bind fun store' ↦
        (readStatusFrame sampleNumber (fun _ _ _ ↦ .nan) sampleRuntime .kept
          (.inverse sampleHistory) sampleRegistered sampleQuery sampleView 2000 store.db store'.db
          store'.db).toOption.map fun frame ↦
            (decide (∀ row ∈ store.db.snapshots, row.InRange), frame.records.table.total)) =
      some (true, 3) := by decide +kernel
  obtain ⟨store, hstore, hrun⟩ := Option.bind_eq_some_iff.mp hrun
  obtain ⟨store', hstore', hrun⟩ := Option.bind_eq_some_iff.mp hrun
  obtain ⟨frame, hframe, hrun⟩ := Option.map_eq_some_iff.mp hrun
  rw [toOption_eq_some] at hframe
  simp only [Prod.mk.injEq, decide_eq_true_eq] at hrun
  obtain ⟨hrange, htotal⟩ := hrun
  have hstill : store'.run (.inverse sampleHistory) [] = some store' := rfl
  have hstate := (status_frame_exact ⟨_, hstore⟩ hrange hstore' hstill sampleRuntime .kept
    sampleRegistered sampleNumber sampleNumber_printNat (fun _ _ _ ↦ .nan) sampleQuery sampleView
    2000).1 frame hframe
  rw [htotal] at hstate
  exact ⟨store, store', frame, hstore, hstore', hframe, htotal, hstate⟩

end Rvx.Web.StatusFrames
