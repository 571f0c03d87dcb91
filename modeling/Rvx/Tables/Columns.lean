import Rvx.Engine.StoreRuns
import Rvx.Tables.Discovered
import Rvx.Tables.Loading

/-!
# The columns of a catalog

The path of a table is a pointer, under which every source is looked up again for the response.
Where discovery has reached the path in all sources that are listed, the table's columns are those
of the listed records, and the kinds of a column are the kinds of their direct fields.
-/

namespace Rvx.Tables

open Core Engine Check StableSort

/-! ## Paths and pointers -/

mutual

/-- What is reached at a path is found by its pointer. -/
theorem reached_pointer : ∀ (value : Value) {root : Value} {tokens : List String},
    root.pointer (pathText tokens) = some value → value.sorted = true →
    ∀ entry ∈ reached (pathText tokens) value, root.pointer entry.1 = some entry.2
  | .object entries, root, tokens, hroot, hsorted, entry, hentry => by
    rw [reached] at hentry
    obtain rfl | hentry := List.mem_cons.mp hentry
    · exact hroot
    · split_ifs at hentry with hopens
      · have hmembers := (sorted_object hsorted).1
        rw [Value.sorted, Bool.and_eq_true] at hsorted
        refine reachedEntries_pointer entries hroot (fun key child hchild ↦ ?_) hsorted.2 entry
          hentry
        rw [Value.get?_object hmembers]
        exact OrderedMap.get?_eq_some.mpr hchild
      · cases hentry
  | .array items, root, tokens, hroot, hsorted, entry, hentry => by
    rw [List.mem_singleton.mp hentry]
    exact hroot
  | .null, root, tokens, hroot, hsorted, entry, hentry => by cases hentry
  | .bool _, root, tokens, hroot, hsorted, entry, hentry => by cases hentry
  | .number _, root, tokens, hroot, hsorted, entry, hentry => by cases hentry
  | .string _, root, tokens, hroot, hsorted, entry, hentry => by cases hentry

theorem reachedEntries_pointer : ∀ (entries : List (String × Value)) {root : Value}
    {tokens : List String} {members : List (String × Value)},
    root.pointer (pathText tokens) = some (.object members) →
    (∀ key child, (key, child) ∈ entries → (Value.object members).get? key = some child) →
    Value.sortedEntries entries = true →
    ∀ entry ∈ reachedEntries (pathText tokens) entries, root.pointer entry.1 = some entry.2
  | [], root, tokens, members, hroot, hmembers, hsorted, entry, hentry => by cases hentry
  | (key, child) :: rest, root, tokens, members, hroot, hmembers, hsorted, entry, hentry => by
    rw [Value.sortedEntries, Bool.and_eq_true] at hsorted
    rw [reachedEntries, ← pathText_append] at hentry
    obtain hentry | hentry := List.mem_append.mp hentry
    · refine reached_pointer child ?_ hsorted.1 entry hentry
      rw [pointer_pathText_concat hroot]
      exact hmembers key child List.mem_cons_self
    · exact reachedEntries_pointer rest hroot
        (fun key child hchild ↦ hmembers key child (List.mem_cons_of_mem _ hchild)) hsorted.2 entry
        hentry

end

/-- The records under a path in the snapshots that have a collection there. -/
def listedRecords (snapshots : List StoredSnapshot) (path : String) : List Record :=
  snapshots.flatMap fun snapshot ↦
    (snapshot.snapshot.state.value.pointer path).elim [] (recordsOf snapshot)

/-- The snapshots that have a collection at a path. -/
def listed (snapshots : List StoredSnapshot) (path : String) : List StoredSnapshot :=
  snapshots.filter fun snapshot ↦
    (collectionLen (snapshot.snapshot.state.value.pointer path)).isSome

theorem recordsOf_values (snapshot : StoredSnapshot) (value : Value) :
    (recordsOf snapshot value).map Record.value = (collection value).map Prod.snd := by
  apply List.ext_getElem
  · simp [recordsOf]
  · simp [recordsOf]

/-- Where discovery reaches a path in every source that is listed for it, it has seen exactly the
records there. -/
theorem mem_rowsAt_listed {snapshots : List StoredSnapshot} {path : String}
    (h : ∀ snapshot ∈ listed snapshots path,
      path ∈ (reached "" snapshot.snapshot.state.value).map Prod.fst) (row : Value) :
    row ∈ rowsAt (snapshots.flatMap fun snapshot ↦ reached "" snapshot.snapshot.state.value) path ↔
      row ∈ (listedRecords snapshots path).map Record.value := by
  have hpointer (snapshot : StoredSnapshot) (entry : String × Value)
      (hentry : entry ∈ reached "" snapshot.snapshot.state.value) :
      snapshot.snapshot.state.value.pointer entry.1 = some entry.2 := by
    have hroot : snapshot.snapshot.state.value.pointer (pathText []) =
        some snapshot.snapshot.state.value := rfl
    exact reached_pointer _ hroot snapshot.snapshot.state.sorted entry hentry
  rw [listedRecords, List.map_flatMap, List.mem_flatMap, rowsAt, List.mem_flatMap]
  constructor
  · rintro ⟨entry, hentry, hrow⟩
    obtain ⟨hentry, hpath⟩ := List.mem_filter.mp hentry
    obtain ⟨snapshot, hsnapshot, hreached⟩ := List.mem_flatMap.mp hentry
    refine ⟨snapshot, hsnapshot, ?_⟩
    rw [← of_decide_eq_true hpath, hpointer snapshot entry hreached, Option.elim_some,
      recordsOf_values]
    exact hrow
  · rintro ⟨snapshot, hsnapshot, hrow⟩
    cases hvalue : snapshot.snapshot.state.value.pointer path with
    | none =>
      rw [hvalue] at hrow
      cases hrow
    | some value =>
      rw [hvalue, Option.elim_some, recordsOf_values] at hrow
      have hlisted : snapshot ∈ listed snapshots path := by
        refine List.mem_filter.mpr ⟨hsnapshot, ?_⟩
        rw [hvalue]
        cases value with
        | array items => rfl
        | object entries => rfl
        | _ => cases hrow
      obtain ⟨entry, hentry, hpath⟩ := List.mem_map.mp (h snapshot hlisted)
      have hsame := hpointer snapshot entry hentry
      rw [hpath, hvalue] at hsame
      refine ⟨entry, List.mem_filter.mpr ⟨List.mem_flatMap.mpr ⟨snapshot, hsnapshot, hentry⟩,
        decide_eq_true hpath⟩, ?_⟩
      rw [← Option.some.inj hsame]
      exact hrow

/-! ## Columns -/

theorem CatalogHints.columns_paths (hints : CatalogHints) :
    hints.columns.map TableColumn.path = hints.fields.keys := by
  rw [columns, List.map_map]
  rfl

theorem hintsOf_columns {rows : List Value} (h : ∀ row ∈ rows, row.sorted = true) (path : String) :
    path ∈ (hintsOf rows).columns.map TableColumn.path ↔
      path = "$key" ∨ ∃ row ∈ rows, path ∈ (rowFields row).map Prod.fst := by
  rw [CatalogHints.columns_paths, ← OrderedMap.mem_def, ← OrderedMap.get?_isSome]
  by_cases hkey : path = "$key"
  · rw [hkey, hintsOf_key h]
    simp
  · rw [hintsOf_field h hkey]
    simp only [← fieldOf_isSome, hkey, false_or]
    by_cases hvalues : (rows.filterMap fun row ↦ fieldOf row path) = []
    · rw [if_pos hvalues]
      refine iff_of_false (by simp) ?_
      rintro ⟨row, hrow, hfield⟩
      rw [List.filterMap_eq_nil_iff.mp hvalues row hrow] at hfield
      cases hfield
    · rw [if_neg hvalues]
      refine iff_of_true rfl ?_
      obtain ⟨value, hvalue⟩ := List.exists_mem_of_ne_nil _ hvalues
      obtain ⟨row, hrow, hfield⟩ := List.mem_filterMap.mp hvalue
      exact ⟨row, hrow, by rw [hfield]; rfl⟩

theorem CatalogHints.mem_columns {hints : CatalogHints} {column : TableColumn}
    (h : column ∈ hints.columns) : ∃ present observed,
      hints.fields.get? column.path = some (present, observed) ∧
      column.kinds = some (OrderedMap.keys
        (if present < hints.rows then OrderedSet.insert .missing observed else observed)) := by
  obtain ⟨⟨path, present, observed⟩, hentry, rfl⟩ := List.mem_map.mp h
  exact ⟨present, observed, OrderedMap.get?_eq_some.mpr hentry, rfl⟩

theorem hintsOf_kinds {rows : List Value} (h : ∀ row ∈ rows, row.sorted = true)
    {column : TableColumn} (hcolumn : column ∈ (hintsOf rows).columns) :
    ∃ kinds, column.kinds = some kinds ∧ ∀ kind, kind ∈ kinds ↔
      if column.path = "$key" then kind = .string
      else ∃ row ∈ rows, cellKind ((fieldOf row column.path).elim .missing .value) = kind := by
  obtain ⟨present, observed, hhint, hkinds⟩ := CatalogHints.mem_columns hcolumn
  refine ⟨_, hkinds, fun kind ↦ ?_⟩
  rw [← OrderedMap.mem_def, hintsOf_rows]
  by_cases hkey : column.path = "$key"
  · rw [hkey, hintsOf_key h] at hhint
    obtain ⟨rfl, rfl⟩ := Prod.mk.inj (Option.some.inj hhint)
    rw [if_pos hkey, if_neg (lt_irrefl _), OrderedSet.mem_ofList, List.mem_singleton]
  · rw [if_neg hkey]
    rw [hintsOf_field h hkey] at hhint
    dsimp only at hhint
    split_ifs at hhint with hvalues
    obtain ⟨rfl, rfl⟩ := Prod.mk.inj (Option.some.inj hhint)
    have hseen : kind ∈ OrderedSet.ofList ((rows.filterMap fun row ↦ fieldOf row column.path).map
        fun value ↦ cellKind (.value value)) ↔
        ∃ row ∈ rows, ∃ value, fieldOf row column.path = some value ∧
          cellKind (.value value) = kind := by
      rw [OrderedSet.mem_ofList, List.mem_map]
      constructor
      · rintro ⟨value, hvalue, hkind⟩
        obtain ⟨row, hrow, hfield⟩ := List.mem_filterMap.mp hvalue
        exact ⟨row, hrow, value, hfield, hkind⟩
      · rintro ⟨row, hrow, value, hfield, hkind⟩
        exact ⟨value, List.mem_filterMap.mpr ⟨row, hrow, hfield⟩, hkind⟩
    have hmissing := @List.length_filterMap_lt_length_iff_exists _ _ rows
      fun row ↦ fieldOf row column.path
    constructor
    · intro hmem
      split_ifs at hmem with hfewer
      · obtain rfl | hmem := OrderedSet.mem_insert.mp hmem
        · obtain ⟨row, hrow, hnone⟩ := hmissing.mp hfewer
          exact ⟨row, hrow, by rw [hnone]; rfl⟩
        · obtain ⟨row, hrow, value, hfield, hkind⟩ := hseen.mp hmem
          exact ⟨row, hrow, by rw [hfield]; exact hkind⟩
      · obtain ⟨row, hrow, value, hfield, hkind⟩ := hseen.mp hmem
        exact ⟨row, hrow, by rw [hfield]; exact hkind⟩
    · rintro ⟨row, hrow, hkind⟩
      cases hfield : fieldOf row column.path with
      | none =>
        rw [hfield] at hkind
        rw [if_pos (hmissing.mpr ⟨row, hrow, hfield⟩)]
        exact OrderedSet.mem_insert.mpr (Or.inl hkind.symm)
      | some value =>
        rw [hfield] at hkind
        have hmem := hseen.mpr ⟨row, hrow, value, hfield, hkind⟩
        split_ifs
        · exact OrderedSet.mem_insert.mpr (Or.inr hmem)
        · exact hmem

/-! ## The response -/

section Response

variable (sources : List Source)

/-- The source of a snapshot in the table at a path. -/
def listedSource (path : String) (snapshot : StoredSnapshot) : Option TableSource :=
  (collectionLen (snapshot.snapshot.state.value.pointer path)).bind fun count ↦
    (sources.find? fun source ↦ source.id = snapshot.sourceId).map fun source ↦
      tableSource snapshot source count

theorem catalogSources_eq {path : String} {bytes tableBytes : ℕ} {snapshots : List StoredSnapshot}
    (h : bytes + (catalogSources sources path bytes tableBytes snapshots).2 ≤
      MAX_SNAPSHOT_PAGE_BYTES) :
    (catalogSources sources path bytes tableBytes snapshots).1 =
      snapshots.filterMap (listedSource sources path) := by
  induction snapshots generalizing tableBytes with
  | nil => rfl
  | cons snapshot rest ih =>
    rw [List.filterMap_cons, listedSource]
    rw [catalogSources] at h ⊢
    cases hcount : collectionLen (snapshot.snapshot.state.value.pointer path) with
    | none =>
      rw [hcount] at h
      exact ih h
    | some count =>
      rw [hcount] at h
      cases hsource : sources.find? fun source ↦ source.id = snapshot.sourceId with
      | none =>
        rw [hsource] at h
        exact ih h
      | some source =>
        rw [hsource] at h
        dsimp only at h ⊢
        split_ifs at h ⊢ with hfull
        · exact absurd h (not_le.mpr hfull)
        · rw [ih h]
          rfl

theorem catalogTables_eq {snapshots : List StoredSnapshot} {bytes : ℕ}
    {tables : List TableDefinition}
    (h : (catalogTables sources snapshots bytes tables).2 = false) :
    (catalogTables sources snapshots bytes tables).1 = tables.map fun table ↦
      { table with sources := snapshots.filterMap (listedSource sources table.path) } := by
  induction tables generalizing bytes with
  | nil => rfl
  | cons table rest ih =>
    rw [catalogTables] at h ⊢
    dsimp only at h ⊢
    split_ifs at h ⊢ with hfull
    rw [ih h, catalogSources_eq sources (not_lt.mp hfull)]
    rfl

end Response

/-! ## Loaded snapshots -/

section Loaded

variable {sources : List Source}

/-- The sources of a table are those of the listed snapshots. -/
theorem listedSource_ids {snapshots : List StoredSnapshot} {path : String}
    (h : ∀ snapshot ∈ snapshots, ∃ source ∈ sources, source.id = snapshot.sourceId) :
    (snapshots.filterMap (listedSource sources path)).map TableSource.snapshotId =
      (listed snapshots path).map fun snapshot ↦ String.ofList (printNat snapshot.id) := by
  induction snapshots with
  | nil => rfl
  | cons snapshot rest ih =>
    rw [List.forall_mem_cons] at h
    obtain ⟨source, hsource, heq⟩ := h.1
    have hfound : (sources.find? fun source ↦ source.id = snapshot.sourceId).isSome := by
      rw [List.find?_isSome]
      exact ⟨source, hsource, decide_eq_true heq⟩
    obtain ⟨found, hfound⟩ := Option.isSome_iff_exists.mp hfound
    rw [List.filterMap_cons, listed, List.filter_cons, listedSource, hfound, ← listed]
    cases collectionLen (snapshot.snapshot.state.value.pointer path) with
    | none => exact ih h.2
    | some count =>
      rw [Option.bind_some, Option.map_some, Option.isSome_some, if_pos rfl, List.map_cons,
        List.map_cons, ih h.2]
      rfl

end Loaded

/-! ## Cells and fields -/

/-- The cell of a record among its direct fields. -/
def Record.field (record : Record) (path : String) : Cell :=
  if path = "$key" then .key record.key
  else (fieldOf record.value path).elim .missing .value

theorem pointer_field (value : Value) (key : String) :
    value.pointer ("/" ++ escapeKey key) = value.pointerStep (escapeKey key).toList := by
  have htext : "/" ++ escapeKey key = pathText [key] := by
    rw [pathText, List.foldl_cons, List.foldl_nil, String.empty_append]
  rw [htext, pointer_pathText, List.foldlM_cons]
  exact bind_pure _

theorem fieldOf_object (entries : List (String × Value)) (key : String) :
    fieldOf (.object entries) ("/" ++ escapeKey key) = (Value.object entries).get? key := by
  have hsame (entry : String × Value) : (("/" ++ escapeKey entry.1 = "/" ++ escapeKey key) ↔
      entry.1 = key) := fieldPath_injective.eq_iff
  rw [fieldOf, rowFields, List.find?_map, Option.map_map, Value.get?]
  simp only [Function.comp_def, hsame]

/-- The paths of columns. -/
def IsColumn (path : String) : Prop :=
  path = "$key" ∨ path = "$value" ∨ ∃ key, path = "/" ++ escapeKey key

theorem isColumn_rowFields {row : Value} {path : String}
    (h : path ∈ (rowFields row).map Prod.fst) : IsColumn path := by
  cases row with
  | object entries =>
    rw [rowFields, List.map_map, List.mem_map] at h
    obtain ⟨entry, -, rfl⟩ := h
    exact Or.inr (Or.inr ⟨entry.1, rfl⟩)
  | _ => exact Or.inr (Or.inl (List.mem_singleton.mp h))

theorem fieldPath_ne (key : String) : "/" ++ escapeKey key ≠ "$key" ∧
    "/" ++ escapeKey key ≠ "$value" := by
  constructor <;> intro h <;>
    · have hhead := congrArg (fun text ↦ text.toList.head?) h
      simp only [String.toList_append] at hhead
      exact absurd hhead (by simp)

/-- Unless a record is an array, its cells are its direct fields. -/
theorem Record.field_eq_cell {record : Record} {path : String} (hpath : IsColumn path)
    (h : ∀ items, record.value ≠ .array items) : record.field path = record.cell path := by
  unfold Record.field Record.cell
  obtain rfl | rfl | ⟨key, rfl⟩ := hpath
  · rw [if_pos rfl, if_pos rfl]
  · rw [if_neg (by decide), if_neg (by decide), if_pos rfl]
    cases hvalue : record.value with
    | object entries =>
      have hnone : fieldOf (.object entries) "$value" = none := by
        rw [← Option.not_isSome_iff_eq_none, fieldOf_isSome, rowFields, List.map_map, List.mem_map]
        rintro ⟨entry, -, heq⟩
        exact (fieldPath_ne entry.1).2 heq
      rw [hnone]
      rfl
    | _ => simp [fieldOf, rowFields, Value.isObject]
  · obtain ⟨hkey, hself⟩ := fieldPath_ne key
    rw [if_neg hkey, if_neg hkey, if_neg hself, pointer_field]
    cases hvalue : record.value with
    | object entries =>
      rw [fieldOf_object, Value.pointerStep, unescapeToken_escapeKey]
    | array items => exact absurd hvalue (h items)
    | _ => simp [fieldOf, rowFields, Value.pointerStep, Ne.symm hself]

/-! ## The catalog -/

/-- A complete catalog lists, for every table, the sources that have a collection at its path.
Where discovery reaches the path in all of them, its columns are the key, the direct fields of the
object records and the value of other records, with the kinds of their fields; the key is always a
string.  Unless a record is an array, its direct fields are its cells. -/
theorem tableCatalog_exact {runtime : Runtime} {serde : Serde} {sources : List Source}
    {db : Database} {response : TableCatalogResponse}
    (h : tableCatalog runtime serde sources db = .ok response)
    (hcomplete : response.truncated = false) :
    ∃ snapshots, tableSnapshots serde sources db runtime none false = .ok snapshots ∧
      ∀ table ∈ response.tables,
        table.sources.map TableSource.snapshotId =
          (listed snapshots table.path).map (fun snapshot ↦ String.ofList (printNat snapshot.id)) ∧
        ((∀ snapshot ∈ listed snapshots table.path,
            table.path ∈ (reached "" snapshot.snapshot.state.value).map Prod.fst) →
          (table.columns.map TableColumn.path).Nodup ∧
          (∀ path, path ∈ table.columns.map TableColumn.path ↔
            path = "$key" ∨ ∃ record ∈ listedRecords snapshots table.path,
              path ∈ (rowFields record.value).map Prod.fst) ∧
          ∀ column ∈ table.columns,
            (∃ kinds, column.kinds = some kinds ∧ ∀ kind, kind ∈ kinds ↔
              if column.path = "$key" then kind = .string
              else ∃ record ∈ listedRecords snapshots table.path,
                cellKind (record.field column.path) = kind) ∧
            ∀ record : Record, (∀ items, record.value ≠ .array items) →
              record.field column.path = record.cell column.path) := by
  unfold tableCatalog at h
  obtain ⟨snapshots, hsnapshots, h⟩ := Check.bind_eq_ok.mp h
  simp only [readCatalog, Check.bind_eq_ok, Check.pure_eq_ok] at h
  obtain ⟨_, -, rfl⟩ := h
  rw [Bool.or_eq_false_iff] at hcomplete
  obtain ⟨hdiscovered, htables⟩ := hcomplete
  have hcovers := discover_covers hdiscovered
  refine ⟨snapshots, hsnapshots, fun table htable ↦ ?_⟩
  rw [catalogTables_eq sources htables, List.map_map] at htable
  obtain ⟨⟨path, known⟩, hknown, rfl⟩ := List.mem_map.mp htable
  obtain ⟨hpath, hcolumns⟩ := hcovers.tables path known (OrderedMap.get?_eq_some.mpr hknown)
  subst hpath
  dsimp only [Function.comp_apply]
  refine ⟨listedSource_ids (tableSnapshots_source hsnapshots), fun hreached ↦ ?_⟩
  have hrows {holds : Value → Prop} :
      (∃ row ∈ rowsAt (snapshots.flatMap fun snapshot ↦
        reached "" snapshot.snapshot.state.value) known.path, holds row) ↔
        ∃ record ∈ listedRecords snapshots known.path, holds record.value := by
    simp only [mem_rowsAt_listed hreached, List.mem_map, exists_exists_and_eq_and]
  have hsorted := sorted_rowsAt hcovers.sorted known.path
  rw [hcolumns]
  refine ⟨?_, fun path ↦ ?_, fun column hcolumn ↦ ⟨?_, fun record hrecord ↦ ?_⟩⟩
  · rw [CatalogHints.columns_paths]
    exact OrderedMap.nodup_keys _
  · rw [hintsOf_columns hsorted, hrows]
  · obtain ⟨kinds, hkinds, hmem⟩ := hintsOf_kinds hsorted hcolumn
    refine ⟨kinds, hkinds, fun kind ↦ (hmem kind).trans ?_⟩
    split_ifs with hkey
    · rfl
    · simp only [hrows, Record.field, if_neg hkey]
  · refine Record.field_eq_cell ?_ hrecord
    obtain hkey | ⟨row, -, hfield⟩ :=
      (hintsOf_columns hsorted column.path).mp (List.mem_map_of_mem hcolumn)
    · exact Or.inl hkey
    · exact isColumn_rowFields hfield

/-! ## Two sources -/

def sampleRuntime : Runtime := ⟨.stable, id, id, fun _ ↦ .ofInt 0⟩

/-- Discovery descends to the array under `g`; `x` is empty, and `y` has an array as a record. -/
def sampleNested : Json := .literal
  [("g", .literal [("m", .literal [("k", .array [.literal [("a", .int 1)]])])]), ("x", .array []),
    ("y", .array [.literal [("0", .int 1)], .array [.text "a"]])]

/-- The members of `g` share a scalar key. -/
def sampleMapped : Json := .literal
  [("g", .literal [("m", .literal [("id", .int 1), ("k", .array [.literal [("b", .int 2)]])]),
    ("n", .literal [("id", .int 2)])])]

def sampleCollections : List StateSnapshot :=
  [sampleSnapshot 0 sampleNested, sampleSnapshot 0 sampleMapped]

def sampleCollected : List Action :=
  openNew ++ [.ingestBatch [sampleDelivery 0 none [sampleSnapshot 0 sampleNested],
    { sampleDelivery 0 none [sampleSnapshot 0 sampleMapped] with
      source := ⟨"worker", "run-1", "attempt-1", "learner"⟩ }]]

def sampleSources : List Source :=
  [⟨"trainer", "run-1", "learner", none, none, none⟩,
    ⟨"worker", "run-1", "learner", none, none, none⟩]

theorem tableCatalog_exact_sample :
    ∃ store response, Store.init.run (.inverse sampleCollections) sampleCollected = some store ∧
      tableCatalog sampleRuntime (.inverse sampleCollections) sampleSources store.db =
        .ok response ∧ response.truncated = false ∧
      ∃ snapshots table, tableSnapshots (.inverse sampleCollections) sampleSources store.db
          sampleRuntime none false = .ok snapshots ∧ table ∈ response.tables ∧
        table.path = "/y" ∧ ∀ path, path ∈ table.columns.map TableColumn.path ↔
          path = "$key" ∨ ∃ record ∈ listedRecords snapshots "/y",
            path ∈ (rowFields record.value).map Prod.fst := by
  have hrun : ((Store.init.run (.inverse sampleCollections) sampleCollected).bind fun store ↦
      (tableCatalog sampleRuntime (.inverse sampleCollections) sampleSources
        store.db).toOption.bind fun response ↦
        (tableSnapshots (.inverse sampleCollections) sampleSources store.db sampleRuntime none
          false).toOption.map fun snapshots ↦
          (response.truncated, decide (∃ table ∈ response.tables, table.path = "/y"),
            decide (∀ snapshot ∈ listed snapshots "/y",
              "/y" ∈ (reached "" snapshot.snapshot.state.value).map Prod.fst))) =
      some (false, true, true) := by decide +kernel
  obtain ⟨store, hstore, hrun⟩ := Option.bind_eq_some_iff.mp hrun
  obtain ⟨response, hresponse, hrun⟩ := Option.bind_eq_some_iff.mp hrun
  obtain ⟨snapshots, hsnapshots, hrun⟩ := Option.map_eq_some_iff.mp hrun
  simp only [Prod.mk.injEq, decide_eq_true_eq] at hrun
  obtain ⟨hcomplete, ⟨table, htable, hpath⟩, hreached⟩ := hrun
  rw [Check.toOption_eq_some] at hresponse hsnapshots
  obtain ⟨loaded, hloaded, hexact⟩ := tableCatalog_exact hresponse hcomplete
  obtain rfl := Except.ok.inj (hloaded.symm.trans hsnapshots)
  obtain ⟨-, hcolumns⟩ := hexact table htable
  rw [hpath] at hcolumns
  exact ⟨store, response, hstore, hresponse, hcomplete, loaded, table, hloaded, htable, hpath,
    (hcolumns hreached).2.1⟩

/-- A complete catalog lists a key of strings where there are no records, a column without the kind
of a cell in an array record, and a table without the fields that one of its sources has. -/
theorem tableCatalog_cells_differ :
    ∃ store response snapshots,
      Store.init.run (.inverse sampleCollections) sampleCollected = some store ∧
      tableCatalog sampleRuntime (.inverse sampleCollections) sampleSources store.db =
        .ok response ∧
      tableSnapshots (.inverse sampleCollections) sampleSources store.db sampleRuntime none false =
        .ok snapshots ∧ response.truncated = false ∧
      (∃ table ∈ response.tables, listedRecords snapshots table.path = [] ∧
        ∃ column ∈ table.columns, column.kinds = some [.string]) ∧
      (∃ table ∈ response.tables, ∃ column ∈ table.columns,
        ∃ record ∈ listedRecords snapshots table.path,
          cellKind (record.cell column.path) ∉ column.kinds.getD []) ∧
      ∃ table ∈ response.tables, ∃ record ∈ listedRecords snapshots table.path,
        ∃ field ∈ rowFields record.value, field.1 ∉ table.columns.map TableColumn.path := by
  have hrun : ((Store.init.run (.inverse sampleCollections) sampleCollected).bind fun store ↦
      (tableCatalog sampleRuntime (.inverse sampleCollections) sampleSources
        store.db).toOption.bind fun response ↦
        (tableSnapshots (.inverse sampleCollections) sampleSources store.db sampleRuntime none
          false).toOption.map fun snapshots ↦
          (response.truncated,
            decide (∃ table ∈ response.tables, listedRecords snapshots table.path = [] ∧
              ∃ column ∈ table.columns, column.kinds = some [.string]),
            decide (∃ table ∈ response.tables, ∃ column ∈ table.columns,
              ∃ record ∈ listedRecords snapshots table.path,
                cellKind (record.cell column.path) ∉ column.kinds.getD []),
            decide (∃ table ∈ response.tables, ∃ record ∈ listedRecords snapshots table.path,
              ∃ field ∈ rowFields record.value,
                field.1 ∉ table.columns.map TableColumn.path))) =
      some (false, true, true, true) := by decide +kernel
  obtain ⟨store, hstore, hrun⟩ := Option.bind_eq_some_iff.mp hrun
  obtain ⟨response, hresponse, hrun⟩ := Option.bind_eq_some_iff.mp hrun
  obtain ⟨snapshots, hsnapshots, hrun⟩ := Option.map_eq_some_iff.mp hrun
  simp only [Prod.mk.injEq, decide_eq_true_eq] at hrun
  rw [Check.toOption_eq_some] at hresponse hsnapshots
  exact ⟨store, response, snapshots, hstore, hresponse, hsnapshots, hrun⟩

end Rvx.Tables
