import Rvx.Tables.Columns
import Rvx.Tables.Interleaving
import Rvx.Tables.Matching
import Rvx.Tables.Scalars

/-!
# Pages of table rows

The rows of a table are the records that match the request, in one strict order: that of the
collections, or that of the cells a sort names, whose ties are decided by the places of the records.
Every page of a table is a slice of this listing, so the pages of a table neither repeat nor miss a
row.
-/

namespace Rvx.Tables

open Core Engine Check StableSort Selection

/-! ## Cells in order -/

/-- Cells of different kinds are ordered by these. -/
def Cell.sortRank : Cell → ℕ
  | .missing => 0
  | .value .null => 1
  | .value (.bool _) => 2
  | .value (.number _) => 3
  | .key _ | .value (.string _) => 4
  | .value (.array _) => 5
  | .value (.object _) => 6

/-- Cells of one kind are ordered by their numbers or their texts. -/
def Cell.content : Cell → ℚ ×ₗ String
  | .missing | .value .null => toLex (0, "")
  | .value (.bool flag) => toLex (if flag then 1 else 0, "")
  | .value (.number token) => toLex (token.toRat, "")
  | .key text | .value (.string text) => toLex (0, text)
  | .value (.array items) => toLex (items.length, "")
  | .value (.object entries) => toLex (entries.length, "")

def Cell.sortValue (cell : Cell) : ℕ ×ₗ ℚ ×ₗ String := toLex (cell.sortRank, cell.content)

theorem compare_number (a b : ℚ) :
    Ord.compare (toLex (a, "")) (toLex (b, "")) = Ord.compare a b := by
  have hmono : StrictMono fun number : ℚ ↦ toLex (number, "") := fun a b hless ↦
    Prod.Lex.toLex_lt_toLex.mpr (Or.inl hless)
  exact compareKeys_map hmono a b

theorem compare_text (a b : String) :
    Ord.compare (toLex ((0 : ℚ), a)) (toLex (0, b)) = Ord.compare a b := by
  have hmono : StrictMono fun text : String ↦ toLex ((0 : ℚ), text) := fun a b hless ↦
    Prod.Lex.toLex_lt_toLex.mpr (Or.inr ⟨rfl, hless⟩)
  exact compareKeys_map hmono a b

theorem compare_count (m n : ℕ) :
    Ord.compare (toLex ((m : ℚ), "")) (toLex ((n : ℚ), "")) = Ord.compare m n := by
  rw [compare_number]
  exact compareKeys_map (Nat.strictMono_cast (α := ℚ)) m n

theorem compare_flag (a b : Bool) :
    Ord.compare (toLex (if a then (1 : ℚ) else 0, "")) (toLex (if b then 1 else 0, "")) =
      Ord.compare a b := by
  have hmono : StrictMono fun flag : Bool ↦ if flag then (1 : ℚ) else 0 := by
    intro a b hless
    obtain ⟨rfl, rfl⟩ := Bool.lt_iff.mp hless
    norm_num
  rw [compare_number]
  exact compareKeys_map hmono a b

/-- Sort keys compare as the values of their cells do. -/
theorem compare_sortKey {cell cell' : Cell} (h : cell.Fits) (h' : cell'.Fits) :
    (SortKey.new cell).compare (SortKey.new cell') =
      Ord.compare cell.sortValue cell'.sortValue := by
  have hrank (cell : Cell) : (SortKey.new cell).rank = cell.sortRank := by
    rcases cell with _ | _ | _ | _ | _ | _ | _ | _ <;> rfl
  unfold SortKey.compare Cell.sortValue
  rw [Prod.Lex.compare_def, hrank, hrank]
  simp only [compareLex, compareOn, ofLex_toLex]
  by_cases hsame : cell.sortRank = cell'.sortRank
  · refine congrArg (Ordering.then _) ?_
    rcases cell with _ | text | _ | flag | token | text | items | entries <;>
      rcases cell' with _ | text' | _ | flag' | token' | text' | items' | entries' <;>
      first
        | exact (compareKeys_self _).symm
        | exact (compare_flag flag flag').symm
        | exact (compare_new (h token rfl) (h' token' rfl)).trans (compare_number _ _).symm
        | exact (compare_text _ _).symm
        | exact (compare_count _ _).symm
        | exact nomatch hsame
  · have hne : Ord.compare cell.sortRank cell'.sortRank ≠ .eq := fun heq ↦
      hsame (compare_eq_iff_eq.mp heq)
    cases hcompare : Ord.compare cell.sortRank cell'.sortRank with
    | eq => exact absurd hcompare hne
    | lt => rfl
    | gt => rfl

/-! ## Places -/

theorem pairwise_place_recordsOf (snapshot : StoredSnapshot) (value : Value) :
    (recordsOf snapshot value).Pairwise fun a b ↦ a.place < b.place := by
  rw [List.pairwise_iff_getElem]
  intro i j hi hj hless
  simp only [recordsOf, List.getElem_mapIdx, Record.place]
  apply Prod.Lex.toLex_lt_toLex.mpr
  apply Or.inr
  refine ⟨rfl, Prod.Lex.toLex_lt_toLex.mpr (Or.inr ⟨rfl, hless⟩)⟩

/-- A record is placed by its snapshot first. -/
theorem place_lt_of_source {a b : Record} (h : sourceKey a.snapshot < sourceKey b.snapshot) :
    a.place < b.place := by
  rw [sourceKey, sourceKey, Prod.Lex.toLex_lt_toLex] at h
  apply Prod.Lex.toLex_lt_toLex.mpr
  cases h with
  | inl hrun => exact Or.inl hrun
  | inr hsource => exact Or.inr ⟨hsource.1, Prod.Lex.toLex_lt_toLex.mpr (Or.inl hsource.2)⟩

theorem snapshot_of_mem {path : String} {snapshot : StoredSnapshot} {record : Record}
    (h : record ∈ snapshotRecords path snapshot) : record.snapshot = snapshot := by
  unfold snapshotRecords at h
  cases hvalue : snapshot.snapshot.state.value.pointer path with
  | none =>
    rw [hvalue] at h
    cases h
  | some value =>
    rw [hvalue] at h
    obtain ⟨position, hposition, rfl⟩ := List.mem_mapIdx.mp h
    rfl

/-- The records of the loaded snapshots are in the order of their places. -/
theorem pairwise_place_tableRecords {path : String} {snapshots : List StoredSnapshot}
    (h : snapshots.Pairwise fun a b ↦ sourceKey a < sourceKey b) :
    (tableRecords path snapshots).Pairwise fun a b ↦ a.place < b.place := by
  apply List.pairwise_flatMap.mpr
  constructor
  · intro snapshot _
    unfold snapshotRecords
    cases snapshot.snapshot.state.value.pointer path with
    | none => exact List.Pairwise.nil
    | some value => exact pairwise_place_recordsOf snapshot value
  · apply h.imp
    intro snapshot other hless a ha b hb
    apply place_lt_of_source
    rw [snapshot_of_mem ha, snapshot_of_mem hb]
    exact hless

/-! ## The listing -/

/-- Which of two values a sort puts first. -/
def SortsBefore {κ : Type} [LinearOrder κ] (direction : TableSortDirection) (a b : κ) : Prop :=
  match direction with
  | .asc => a < b
  | .desc => b < a

/-- Which of two rows comes first: by the cells the sort names, then by place. -/
def Precedes (sort : Option TableSort) (a b : Record) : Prop :=
  match sort with
  | none => a.place < b.place
  | some sort =>
    SortsBefore sort.direction (a.cell sort.path).sortValue (b.cell sort.path).sortValue ∨
      (a.cell sort.path).sortValue = (b.cell sort.path).sortValue ∧ a.place < b.place

/-- All rows in the order of a table. -/
def tableListing (sort : Option TableSort) (rows : List Record) : List Record :=
  match sort with
  | none => rows
  | some ⟨path, .asc⟩ => sortOn (fun row ↦ toLex ((row.cell path).sortValue, row.place)) rows
  | some ⟨path, .desc⟩ =>
    sortOn (fun row ↦ toLex (OrderDual.toDual (row.cell path).sortValue, row.place)) rows

theorem perm_tableListing (sort : Option TableSort) (rows : List Record) :
    (tableListing sort rows).Perm rows := by
  unfold tableListing
  split
  · exact List.Perm.refl rows
  · exact perm_sortOn _ rows
  · exact perm_sortOn _ rows

/-- Keys with distinct places are distinct. -/
theorem nodup_placed {κ : Type} (key : Record → κ) {rows : List Record}
    (hplaces : rows.Pairwise fun a b ↦ a.place < b.place) :
    (rows.map fun row ↦ toLex (key row, row.place)).Nodup := by
  apply List.pairwise_map.mpr
  apply hplaces.imp
  intro a b hless heq
  have hplace : a.place = b.place := (Prod.mk.inj (toLex.injective heq)).2
  exact hless.ne hplace

theorem pairwise_tableListing (sort : Option TableSort) {rows : List Record}
    (hplaces : rows.Pairwise fun a b ↦ a.place < b.place) :
    (tableListing sort rows).Pairwise (Precedes sort) := by
  unfold tableListing
  split
  · exact hplaces
  · apply (ordered_sortOn (nodup_placed _ hplaces)).imp
    intro a b hless
    exact Prod.Lex.toLex_lt_toLex.mp hless
  · apply (ordered_sortOn (nodup_placed _ hplaces)).imp
    intro a b hless
    exact Prod.Lex.toLex_lt_toLex.mp hless

/-! ## The page -/

section Page

variable {runtime : Runtime} {request : TableRowsRequest} {rows page : List Record}
  {budget budget' : WorkBudget}

/-- A cell whose text was counted is short. -/
theorem fits_of_text {cell : Cell} {factor : ℕ} {value : Unit}
    (h : (WorkBudget.text (cellBytes cell * (2 * factor + 2))).Returns budget value budget') :
    cell.Fits := by
  intro number hcell
  have hbytes := WorkBudget.text_le h
  have hlength := length_le_utf8Len number.chars
  subst hcell
  calc
    number.chars.length ≤ String.utf8Len number.chars := hlength
    _ ≤ String.utf8Len number.chars * (2 * factor + 2) := Nat.le_mul_of_pos_right _ (by omega)
    _ ≤ MAX_TEXT_WORK := hbytes
    _ < 2 ^ 63 := by decide

/-- Entries that carry their sort keys are selected by them. -/
theorem selectPage_keyed {α κ : Type} [LinearOrder κ] (ops : SliceOps) (sortKey : α → SortKey)
    {order : α × SortKey → α × SortKey → Ordering} {key : α → κ} {entries : List α}
    (offset limit : ℕ)
    (horder : ComparesBy order (fun entry ↦ key entry.1)
      (entries.map fun entry ↦ (entry, sortKey entry)))
    (hnodup : (entries.map key).Nodup) :
    (selectPage ops order offset limit
        (entries.map fun entry ↦ (entry, sortKey entry))).map Prod.fst =
      ((sortOn key entries).drop offset).take limit := by
  have hfirst : (entries.map fun entry ↦ (entry, sortKey entry)).map Prod.fst = entries := by
    simp [Function.comp_def]
  rw [selectPage_paired ops offset limit horder, hfirst]
  rwa [hfirst]

/-- Sort keys compare as the values of their cells. -/
theorem comparesBy_sortKey {α : Type} (cell : α → Cell) {entries : List α}
    (hfits : ∀ entry ∈ entries, (cell entry).Fits) :
    ComparesBy (fun a b : α × SortKey ↦ a.2.compare b.2) (fun entry ↦ (cell entry.1).sortValue)
      (entries.map fun entry ↦ (entry, SortKey.new (cell entry))) := by
  intro a ha b hb
  obtain ⟨entry, hentry, rfl⟩ := List.mem_map.mp ha
  obtain ⟨other, hother, rfl⟩ := List.mem_map.mp hb
  exact compare_sortKey (hfits entry hentry) (hfits other hother)

/-- A page of the rows is a slice of their listing. -/
theorem tablePageOrder_ok (hplaces : rows.Pairwise fun a b ↦ a.place < b.place)
    (h : (tablePageOrder runtime request rows).Returns budget page budget') :
    page = ((tableListing request.sort rows).drop request.offset).take request.limit := by
  have hlength := (perm_tableListing request.sort rows).length_eq
  unfold tablePageOrder at h
  dsimp only at h
  cases hsort : request.sort with
  | none =>
    rw [hsort] at h
    obtain ⟨rfl, -⟩ := Script.returns_pure.mp h
    exact slice_clamped rows request.offset request.limit
  | some sort =>
    rw [hsort] at h
    dsimp only at h
    obtain ⟨_, _, htexts, h⟩ := Script.returns_bind.mp h
    have hfits : ∀ row ∈ rows, (row.cell sort.path).Fits := by
      intro row hrow
      obtain ⟨before, after, htext⟩ := Script.returns_of_mem htexts hrow
      exact fits_of_text htext
    rw [hsort] at hlength
    obtain ⟨hempty, h⟩ | ⟨hpage, h⟩ := Script.returns_ite.mp h
    · obtain ⟨rfl, -⟩ := Script.returns_pure.mp h
      symm
      rw [List.eq_nil_iff_length_eq_zero, List.length_take, List.length_drop, hlength]
      omega
    · obtain ⟨rfl, -⟩ := Script.returns_pure.mp h
      have hplace : ComparesBy (fun a b : Record × SortKey ↦ Ord.compare a.1.place b.1.place)
          (fun entry ↦ entry.1.place)
          (rows.map fun row ↦ (row, SortKey.new (row.cell sort.path))) := fun _ _ _ _ ↦ rfl
      obtain ⟨path, direction⟩ := sort
      cases direction with
      | asc =>
        exact selectPage_keyed runtime.slices _ request.offset request.limit
          ((comparesBy_sortKey _ hfits).andThen hplace) (nodup_placed _ hplaces)
      | desc =>
        exact selectPage_keyed runtime.slices _ request.offset request.limit
          ((comparesBy_sortKey _ hfits).swap.andThen hplace) (nodup_placed _ hplaces)

end Page

/-! ## The response -/

/-- A record as a table shows it. -/
def Record.shownRow (columns : List String) (record : Record) : TableDataRow where
  runId := record.snapshot.runId
  sourceId := record.snapshot.sourceId
  snapshotId := String.ofList (printNat record.snapshot.id)
  rowKey := record.key
  cells := OrderedMap.ofList (columns.map fun path ↦ (path, preview (record.cell path)))

theorem renderRow_eq {columns : List String} (hcolumns : ∀ path ∈ columns, Resolvable path)
    (record : Record) :
    renderRow (columns.map fun path ↦ (path, FieldPath.new path)) record =
      record.shownRow columns := by
  have hcells : (columns.map fun path ↦ (path, FieldPath.new path)).map
      (fun field ↦ (field.1, preview (field.2.cell record))) =
      columns.map fun path ↦ (path, preview (record.cell path)) := by
    rw [List.map_map]
    apply List.map_congr_left
    intro path hpath
    rw [Function.comp_apply, cell_new (hcolumns path hpath)]
  rw [renderRow, hcells]
  rfl

theorem renderRows_ok {fields : List (String × FieldPath)} {bytes : ℕ} {page : List Record}
    {rows : List TableDataRow} (h : renderRows fields bytes page = .ok rows) :
    rows = page.map (renderRow fields) := by
  induction page generalizing bytes rows with
  | nil => exact (Except.ok.inj h).symm
  | cons record rest ih =>
    simp only [renderRows, bind_eq_ok, pure_eq_ok] at h
    obtain ⟨size, -, _, -, others, hothers, rfl⟩ := h
    rw [ih hothers, List.map_cons]

theorem render_ok {total offset limit : ℕ} {columns : List String} {snapshots : List TableSource}
    {page : List Record} {response : TableRowsResponse}
    (hcolumns : ∀ path ∈ columns, Resolvable path)
    (h : render total columns snapshots offset limit page = .ok response) :
    response = ⟨columns.map column, page.map (Record.shownRow columns), total, offset, limit,
      snapshots⟩ := by
  simp only [render, bind_eq_ok, pure_eq_ok] at h
  obtain ⟨bytes, -, rows, hrows, _, -, rfl⟩ := h
  rw [renderRows_ok hrows]
  congr 1
  apply List.map_congr_left
  intro record _
  exact renderRow_eq hcolumns record

/-! ## Requests -/

/-- The columns that a request names can be looked up. -/
structure Resolves (request : TableRowsRequest) : Prop where
  filters : ∀ filter ∈ request.filters, Resolvable filter.path
  columns : ∀ columns ∈ request.columns, ∀ path ∈ columns, Resolvable path

theorem resolves_of_validate {request : TableRowsRequest} {maximum : ℕ}
    (h : validateRowsLimit request maximum = .ok ()) : Resolves request := by
  simp only [validateRowsLimit, bind_eq_ok, forM_eq_ok, exists_unit] at h
  obtain ⟨-, -, -, hcolumns, -, hfilters, -⟩ := h
  constructor
  · intro filter hfilter
    obtain ⟨hpath, -⟩ := hfilters filter hfilter
    exact resolvable_of_validateColumn hpath
  · intro columns hsome path hpath
    obtain ⟨-, -, hcolumn⟩ := hcolumns columns (Option.mem_toList.mpr hsome)
    exact resolvable_of_validateColumn (hcolumn path hpath)

/-- The columns of a scan are the requested ones, if there are any. -/
theorem columns_of_records {runtime : Runtime} {request : TableRowsRequest} {mode : ScanMode}
    {snapshots : List StoredSnapshot} {sources : List Source} {scan : Scan}
    {budget budget' : WorkBudget} (hmode : mode ≠ .projection)
    (h : (records runtime request mode snapshots sources).Returns budget scan budget') :
    ∀ columns ∈ request.columns, scan.columns = columns := by
  unfold records at h
  dsimp only at h
  obtain ⟨compiled, _, -, h⟩ := Script.returns_bind.mp h
  obtain ⟨state, _, -, h⟩ := Script.returns_bind.mp h
  have hscan : (⟨state.rows, if mode ≠ .projection then request.columns.getD state.columns.keys
      else [], state.evidence, state.allObjects⟩ : Scan) = scan := by
    obtain ⟨-, h⟩ | ⟨-, h⟩ := Script.returns_ite.mp h
    · obtain ⟨_, _, -, h⟩ := Script.returns_bind.mp h
      exact (Script.returns_pure.mp h).1
    · exact (Script.returns_pure.mp h).1
  intro columns hcolumns
  have hsome : request.columns = some columns := hcolumns
  rw [← hscan]
  dsimp only
  rw [if_pos hmode, hsome, Option.getD_some]

/-! ## Whole reads -/

/-- The records a table lists. -/
def matching (runtime : Runtime) (request : TableRowsRequest) (snapshots : List StoredSnapshot) :
    List Record :=
  (tableRecords request.path snapshots).filter (keeps runtime.toLowercase request)

section Reads

variable {runtime : Runtime} {serde : Serde} {request : TableRowsRequest} {sources : List Source}
  {db : Database} {response : TableRowsResponse} {snapshots : List StoredSnapshot}

/-- What a read of one page does, after its request was checked. -/
theorem readRows_ok (hresolves : Resolves request)
    (hsnapshots : snapshots.Pairwise fun a b ↦ sourceKey a < sourceKey b)
    {budget : WorkBudget}
    (h : (readRows runtime request sources snapshots).Returns WorkBudget.empty response budget) :
    ∃ scan budget,
      (records runtime request .rows snapshots sources).Returns WorkBudget.empty scan budget ∧
      scan.rows = matching runtime request snapshots ∧
      response = ⟨scan.columns.map column,
        (((tableListing request.sort scan.rows).drop request.offset).take request.limit).map
          (Record.shownRow scan.columns),
        scan.rows.length, request.offset, request.limit,
        snapshots.flatMap (snapshotEvidence request.path sources)⟩ := by
  unfold readRows at h
  obtain ⟨scan, middle, hscan, h⟩ := Script.returns_bind.mp h
  obtain ⟨page, _, hpage, h⟩ := Script.returns_bind.mp h
  obtain ⟨hrender, -⟩ := Script.returns_check.mp h
  obtain ⟨hrows, hevidence, hcolumns⟩ := records_ok hresolves.filters hscan
  have hplaces : scan.rows.Pairwise fun a b ↦ a.place < b.place := by
    rw [hrows]
    exact (pairwise_place_tableRecords hsnapshots).filter _
  refine ⟨scan, middle, hscan, hrows, ?_⟩
  rw [render_ok (hcolumns hresolves.columns) hrender, tablePageOrder_ok hplaces hpage, hevidence]

theorem tableRows_ok (h : tableRows runtime serde request sources db = .ok response) :
    ∃ snapshots scan budget,
      tableSnapshots serde sources db runtime request.snapshotIds true = .ok snapshots ∧
      (records runtime request .rows snapshots sources).Returns WorkBudget.empty scan budget ∧
      scan.rows = matching runtime request snapshots ∧
      response = ⟨scan.columns.map column,
        (((tableListing request.sort scan.rows).drop request.offset).take request.limit).map
          (Record.shownRow scan.columns),
        scan.rows.length, request.offset, request.limit,
        snapshots.flatMap (snapshotEvidence request.path sources)⟩ := by
  simp only [tableRows, bind_eq_ok] at h
  obtain ⟨_, hvalid, snapshots, hsnapshots, hread⟩ := h
  obtain ⟨scan, budget, hscan, hrows, hresponse⟩ :=
    readRows_ok (resolves_of_validate hvalid) (tableSnapshots_ordered hsnapshots)
      (Prod.ext hread rfl)
  exact ⟨snapshots, scan, budget, hsnapshots, hscan, hrows, hresponse⟩

end Reads

/-- The request of another page of the same table. -/
def pageRequest (request : TableRowsRequest) (offset limit : ℕ) : TableRowsRequest :=
  { request with offset := offset, limit := limit }

/-- A read of all sources loads one snapshot of each. -/
theorem tableSnapshots_complete {serde : Serde} {sources : List Source} {db : Database}
    {runtime : Runtime} {pinned : Option (List String)} {snapshots : List StoredSnapshot}
    (h : tableSnapshots serde sources db runtime pinned true = .ok snapshots) :
    (snapshots.map StoredSnapshot.sourceId).Perm (sources.map Source.id) := by
  have hread {ids : List ℤ} (hids : (do
      let loaded ← (loadSnapshots serde sources db ids WorkBudget.empty).1
      reject (true = true ∧ (loaded.result = [] ∨ loaded.seen.size ≠ sources.length))
        (.invalidInput ("table rows require one completed snapshot for every selected Source; " ++
          "select source_ids explicitly"))
      return sortOn sourceKey loaded.result) = Except.ok (ε := EngineError) snapshots) :
      (snapshots.map StoredSnapshot.sourceId).Perm (sources.map Source.id) := by
    simp only [bind_eq_ok, pure_eq_ok, reject_ok, true_and, not_or, not_not] at hids
    obtain ⟨loaded, hload, _, ⟨-, hsize⟩, rfl⟩ := hids
    have hloaded := loadSnapshots_loaded (Prod.ext hload rfl)
    have hseen : loaded.seen.keys.Perm (loaded.result.map StoredSnapshot.sourceId) :=
      (List.perm_ext_iff_of_nodup loaded.seen.nodup_keys hloaded.distinct).mpr hloaded.seen
    have hsub : loaded.result.map StoredSnapshot.sourceId ⊆ sources.map Source.id := by
      intro id hid
      obtain ⟨snapshot, hsnapshot, rfl⟩ := List.mem_map.mp hid
      obtain ⟨source, hsource, heq, -⟩ := hloaded.selected snapshot hsnapshot
      exact List.mem_map.mpr ⟨source, hsource, heq⟩
    have hlength : (sources.map Source.id).length ≤
        (loaded.result.map StoredSnapshot.sourceId).length := by
      rw [← hseen.length_eq, OrderedMap.length_keys, hsize, List.length_map]
    have hall : (loaded.result.map StoredSnapshot.sourceId).Perm (sources.map Source.id) :=
      (List.subperm_of_subset hloaded.distinct hsub).perm_of_length_le hlength
    exact ((perm_sortOn _ _).map _).trans hall
  unfold tableSnapshots at h
  cases pinned with
  | none =>
    obtain ⟨ids, -, hids⟩ := bind_eq_ok.mp h
    exact hread hids
  | some pinned =>
    obtain ⟨ids, -, hids⟩ := bind_eq_ok.mp h
    exact hread hids

/-- What the pages of a table list: every record of a snapshot of each source that matches, once
and in one order. -/
structure TableListing (runtime : Runtime) (request : TableRowsRequest) (sources : List Source)
    (snapshots : List StoredSnapshot) (listing : List Record) : Prop where
  loaded : (snapshots.map StoredSnapshot.sourceId).Perm (sources.map Source.id)
  perm : listing.Perm (matching runtime request snapshots)
  ordered : listing.Pairwise (Precedes request.sort)

/-- The pages of a table are slices of one listing, and together they are the whole listing. -/
theorem table_pages_exact (runtime : Runtime) (serde : Serde) (request : TableRowsRequest)
    (sources : List Source) (db : Database) (response : TableRowsResponse)
    (h : tableRows runtime serde request sources db = .ok response) :
    ∃ snapshots columns listing,
      tableSnapshots serde sources db runtime request.snapshotIds true = .ok snapshots ∧
      TableListing runtime request sources snapshots listing ∧
      (∀ requested ∈ request.columns, columns = requested) ∧
      (∀ offset limit page,
        tableRows runtime serde (pageRequest request offset limit) sources db = .ok page →
        page = ⟨columns.map column,
          ((listing.drop offset).take limit).map (Record.shownRow columns), listing.length, offset,
          limit, snapshots.flatMap (snapshotEvidence request.path sources)⟩) ∧
      ∀ (limit count : ℕ) (pages : ℕ → TableRowsResponse),
        (∀ n < count, tableRows runtime serde (pageRequest request (n * limit) limit) sources db =
          .ok (pages n)) →
        response.total ≤ count * limit →
        ((List.range count).flatMap fun n ↦ (pages n).rows) =
          listing.map (Record.shownRow columns) := by
  obtain ⟨snapshots, scan, budget, hsnapshots, hscan, hrows, hresponse⟩ := tableRows_ok h
  have hordered := tableSnapshots_ordered hsnapshots
  have hplaces : scan.rows.Pairwise fun a b ↦ a.place < b.place := by
    rw [hrows]
    exact (pairwise_place_tableRecords hordered).filter _
  have hperm := perm_tableListing request.sort scan.rows
  have hpage (offset limit : ℕ) (page : TableRowsResponse)
      (hread : tableRows runtime serde (pageRequest request offset limit) sources db = .ok page) :
      page = ⟨scan.columns.map column,
        (((tableListing request.sort scan.rows).drop offset).take limit).map
          (Record.shownRow scan.columns), (tableListing request.sort scan.rows).length, offset,
        limit, snapshots.flatMap (snapshotEvidence request.path sources)⟩ := by
    obtain ⟨snapshots', scan', budget', hsnapshots', hscan', -, rfl⟩ := tableRows_ok hread
    -- the page is not read by the scan
    obtain rfl := Except.ok.inj (hsnapshots'.symm.trans hsnapshots)
    obtain ⟨rfl, -⟩ := Script.Returns.unique hscan' hscan
    rw [hperm.length_eq]
    rfl
  refine ⟨snapshots, scan.columns, tableListing request.sort scan.rows, hsnapshots,
    ⟨tableSnapshots_complete hsnapshots, hrows ▸ hperm, pairwise_tableListing _ hplaces⟩,
    columns_of_records (by decide) hscan, hpage, ?_⟩
  intro limit count pages hpages hcount
  calc
    ((List.range count).flatMap fun n ↦ (pages n).rows)
      = (List.range count).flatMap fun n ↦ (((tableListing request.sort scan.rows).drop
          (n * limit)).take limit).map (Record.shownRow scan.columns) := by
        apply List.flatMap_congr
        intro n hn
        rw [hpage _ _ _ (hpages n (List.mem_range.mp hn))]
    _ = ((List.range count).flatMap fun n ↦ ((tableListing request.sort scan.rows).drop
          (n * limit)).take limit).map (Record.shownRow scan.columns) := by
        rw [List.map_flatMap]
    _ = ((tableListing request.sort scan.rows).take (count * limit)).map
          (Record.shownRow scan.columns) := by
        rw [flatMap_slices]
    _ = (tableListing request.sort scan.rows).map (Record.shownRow scan.columns) := by
        rw [List.take_of_length_le]
        rw [hperm.length_eq]
        rw [hresponse] at hcount
        exact hcount

def sampleStates : List StateSnapshot :=
  [sampleSnapshot 0 (.literal [("rows", .array [.literal [("loss", .int 1)],
    .literal [("loss", .int 3)]])]),
  sampleSnapshot 0 (.literal [("rows", .array [.literal [("loss", .int 2)]])])]

def sampleListed : List Action :=
  openNew ++ [.ingestBatch (sampleStates.zip ["trainer", "worker"] |>.map fun entry ↦
    { sampleDelivery 0 none [entry.1] with source := ⟨entry.2, "run-1", "attempt-1", "learner"⟩ })]

/-- The largest losses first, two rows a page. -/
def sampleRowsRequest : TableRowsRequest :=
  ⟨["run-1"], [], "/rows", none, none, none, [], some ⟨"/loss", .desc⟩, 0, 2⟩

theorem table_pages_exact_sample :
    ∃ store first second, Store.init.run (.inverse sampleStates) sampleListed = some store ∧
      tableRows sampleRuntime (.inverse sampleStates) sampleRowsRequest sampleSources store.db =
        .ok first ∧
      tableRows sampleRuntime (.inverse sampleStates) (pageRequest sampleRowsRequest 2 2)
        sampleSources store.db = .ok second ∧
      ∃ snapshots columns listing,
        TableListing sampleRuntime sampleRowsRequest sampleSources snapshots listing ∧
        first.rows ++ second.rows = listing.map (Record.shownRow columns) := by
  have hrun : ((Store.init.run (.inverse sampleStates) sampleListed).bind fun store ↦
      (tableRows sampleRuntime (.inverse sampleStates) sampleRowsRequest sampleSources
        store.db).toOption.bind fun first ↦
        (tableRows sampleRuntime (.inverse sampleStates) (pageRequest sampleRowsRequest 2 2)
          sampleSources store.db).toOption.map fun second ↦
          (first.total, (first.rows ++ second.rows).map TableDataRow.rowKey)) =
      some (3, ["1", "0", "0"]) := by decide +kernel
  obtain ⟨store, hstore, hrun⟩ := Option.bind_eq_some_iff.mp hrun
  obtain ⟨first, hfirst, hrun⟩ := Option.bind_eq_some_iff.mp hrun
  obtain ⟨second, hsecond, hrun⟩ := Option.map_eq_some_iff.mp hrun
  rw [toOption_eq_some] at hfirst hsecond
  obtain ⟨snapshots, columns, listing, -, hlisting, -, -, hpages⟩ :=
    table_pages_exact _ _ _ _ _ first hfirst
  refine ⟨store, first, second, hstore, hfirst, hsecond, snapshots, columns, listing, hlisting, ?_⟩
  have hall := hpages 2 2 (fun n ↦ if n = 0 then first else second) ?_ ?_
  · simpa [List.range_succ] using hall
  · intro n hn
    obtain rfl | rfl : n = 0 ∨ n = 1 := by omega
    · exact hfirst
    · exact hsecond
  · rw [(Prod.mk.inj hrun).1]
    decide

end Rvx.Tables
