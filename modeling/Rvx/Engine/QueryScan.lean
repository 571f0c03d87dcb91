import Rvx.Engine.ChartContents
import Rvx.Engine.Query

/-!
# What a query reads

The two loops of a projection, as functions of the tables.  A loop that was not stopped by a budget
has read everything it selects: the fields become a map from field to first snapshot, and the joined
rows become one point for every selected observation, grouped by source in the order of the scan.
-/

namespace Rvx.Engine

open Core Check StableSort

/-! ## Fields -/

def FieldRow.scopeKey (row : FieldRow) : String ×ₗ String ×ₗ String :=
  fieldKey row.runId row.sourceId row.path

theorem FieldScope.read_ok {scope scope' : FieldScope} {row : FieldRow}
    (h : scope.read row = .ok scope') :
    scope'.known = scope.known.insert row.scopeKey row.firstSnapshotId ∧
      scope'.known.size ≤ 1000000 := by
  simp only [FieldScope.read, bind_eq_ok, exists_unit, reject_ok, pure_eq_ok, not_lt] at h
  obtain ⟨-, hsize, rfl⟩ := h
  exact ⟨rfl, hsize⟩

/-- Fields with distinct keys are all kept, and their number is bounded. -/
theorem known_of_read {rows : List FieldRow} {scope : FieldScope}
    (hkeys : (rows.map FieldRow.scopeKey).Nodup)
    (h : rows.foldlM FieldScope.read ⟨OrderedMap.empty, OrderedMap.empty, 0⟩ = .ok scope) :
    scope.known.size = rows.length ∧ rows.length ≤ 1000000 ∧
      ∀ key first, scope.known.get? key = some first ↔
        ∃ row ∈ rows, row.scopeKey = key ∧ row.firstSnapshotId = first := by
  induction rows using List.reverseRecOn generalizing scope with
  | nil =>
    obtain rfl : FieldScope.mk OrderedMap.empty OrderedMap.empty 0 = scope := by simpa using h
    simp [OrderedMap.size, OrderedMap.empty, OrderedMap.get?]
  | append_singleton rows row ih =>
    obtain ⟨middle, hmiddle, hlast⟩ := foldlM_append_eq_ok.mp h
    obtain ⟨hknown, hbound⟩ := FieldScope.read_ok (by simpa using hlast : middle.read row = _)
    rw [List.map_append, List.nodup_append] at hkeys
    obtain ⟨hsize, -, hget⟩ := ih hkeys.1 hmiddle
    have hfresh : row.scopeKey ∉ middle.known := by
      intro hmem
      obtain ⟨first, hfirst⟩ := Option.isSome_iff_exists.mp (OrderedMap.get?_isSome.mpr hmem)
      obtain ⟨old, hold, hkey, -⟩ := (hget _ _).mp hfirst
      exact hkeys.2.2 _ (List.mem_map_of_mem hold) row.scopeKey (by simp) hkey
    have hcount : scope.known.size = (rows ++ [row]).length := by
      rw [hknown, OrderedMap.size_insert_of_not_mem hfresh, hsize, List.length_append,
        List.length_singleton]
    refine ⟨hcount, hcount ▸ hbound, fun key first ↦ ?_⟩
    rw [hknown, OrderedMap.get?_insert]
    split_ifs with hkey
    · subst hkey
      constructor
      · intro heq
        exact ⟨row, by simp, rfl, Option.some.inj heq⟩
      · rintro ⟨other, hother, hsame, rfl⟩
        cases List.mem_append.mp hother with
        | inl hold =>
          exact absurd hsame (hkeys.2.2 _ (List.mem_map_of_mem hold) row.scopeKey (by simp))
        | inr hnew => rw [List.mem_singleton.mp hnew]
    · rw [hget]
      constructor
      · rintro ⟨other, hother, hsame⟩
        exact ⟨other, List.mem_append_left _ hother, hsame⟩
      · rintro ⟨other, hother, hsame, hfirst⟩
        cases List.mem_append.mp hother with
        | inl hold => exact ⟨other, hold, hsame, hfirst⟩
        | inr hnew =>
          rw [List.mem_singleton.mp hnew] at hsame
          exact absurd hsame.symm hkey

theorem take_eq_of_length_le {α : Type} {list : List α} {limit : ℕ}
    (h : (list.take (limit + 1)).length ≤ limit) : list.take (limit + 1) = list := by
  rw [List.length_take] at h
  exact List.take_of_length_le (by omega)

/-- The fields a query knows are the indexed ones in its scope. -/
theorem known_iff {request : SnapshotQueryRequest} {chart : ChartIndex} {scope : FieldScope}
    (hkeys : (chart.fields.map ChartIndex.fieldTable.key).Nodup)
    (h : (scopedFields request chart).foldlM FieldScope.read
      ⟨OrderedMap.empty, OrderedMap.empty, 0⟩ = .ok scope)
    (run source path : String) (first : ℕ) :
    scope.known.get? (fieldKey run source path) = some first ↔
      request.inScope run source = true ∧ path ∈ request.paths ∧
        ∃ field ∈ chart.fields, ChartIndex.fieldTable.key field = (run, source, path) ∧
          field.firstSnapshotId = first := by
  have hscope (field : FieldRow) (run source path : String) :
      field.scopeKey = fieldKey run source path ↔
        ChartIndex.fieldTable.key field = (run, source, path) := by
    simp [FieldRow.scopeKey, fieldKey, ChartIndex.fieldTable]
  have hnodup : ((scopedFields request chart).map FieldRow.scopeKey).Nodup := by
    have hsub : (scopedFields request chart).Sublist chart.fields :=
      (List.take_sublist _ _).trans List.filter_sublist
    refine List.Nodup.map_on (fun field hfield other hother heq ↦ ?_)
      (hkeys.of_map.sublist hsub)
    exact List.inj_on_of_nodup_map hkeys (hsub.subset hfield) (hsub.subset hother)
      ((hscope field other.runId other.sourceId other.path).mp heq)
  obtain ⟨-, hlength, hget⟩ := known_of_read hnodup h
  rw [hget, scopedFields, take_eq_of_length_le hlength]
  constructor
  · rintro ⟨field, hfield, hkey, hfirst⟩
    rw [hscope] at hkey
    rw [List.mem_filter, Bool.and_eq_true, decide_eq_true_eq] at hfield
    obtain ⟨rfl, rfl, rfl⟩ : field.runId = run ∧ field.sourceId = source ∧ field.path = path := by
      simpa [ChartIndex.fieldTable] using hkey
    exact ⟨hfield.2.1, hfield.2.2, field, hfield.1, rfl, hfirst⟩
  · rintro ⟨hin, hpath, field, hfield, hkey, hfirst⟩
    obtain ⟨rfl, rfl, rfl⟩ : field.runId = run ∧ field.sourceId = source ∧ field.path = path := by
      simpa [ChartIndex.fieldTable] using hkey
    exact ⟨field, List.mem_filter.mpr ⟨hfield, by simp [hin, hpath]⟩, rfl, hfirst⟩

/-! ## One snapshot of the join -/

/-- The position of a snapshot on the requested axis, if it lies in the requested range. -/
def SnapshotQueryRequest.position (request : SnapshotQueryRequest) (joined : JoinedRow) :
    Option ℤ :=
  match axisValue request joined with
  | .ok (some axis) => if within request.fromBound request.toBound axis then some axis else none
  | _ => none

/-- The value column does not influence the position. -/
theorem SnapshotQueryRequest.position_cell (request : SnapshotQueryRequest) (joined : JoinedRow)
    (cell : Option (String × ℚ)) :
    request.position { joined with cell := cell } = request.position joined := by
  simp only [position, axisValue]

/-- The point a snapshot contributes. -/
def pointOf (serde : Serde) (request : SnapshotQueryRequest) (chart : ChartIndex)
    (row : SnapshotRow) : Option Projected :=
  (joinObservation request chart row).bind fun joined ↦ (request.position joined).map fun axis ↦
    (cellsOf request chart row.id).foldl (fun point cell ↦ point.fill request cell)
      (Projected.start request joined axis ((serde.paths joined.exclusionsJson).getD []))

namespace Scan

variable {serde : Serde} {request : SnapshotQueryRequest} {joined : JoinedRow} {scan scan' : Scan}

/-- Only the group of one key changed, and it now holds `points`. -/
structure Writes (key : String ×ₗ String) (points : List Projected) (scan scan' : Scan) :
    Prop where
  self : scan'.groups.get? key = some points
  other : ∀ k, k ≠ key → scan'.groups.get? k = scan.groups.get? k

theorem fill_ok {before : List Projected} {point : Projected}
    (hlast : scan.groups.get? (groupKey joined.row) = some (before ++ [point]))
    (h : scan.fill request joined = .ok scan') :
    scan'.rows = scan.rows ∧ scan'.lastId = scan.lastId ∧
      Writes (groupKey joined.row)
        (before ++ [joined.cell.elim point fun cell ↦ point.fill request cell]) scan scan' := by
  unfold fill at h
  cases hcell : joined.cell with
  | none =>
    rw [hcell] at h
    obtain rfl := Except.ok.inj h
    exact ⟨rfl, rfl, hlast, fun _ _ ↦ rfl⟩
  | some cell =>
    simp only [hcell, bind_eq_ok, exists_unit, pure_eq_ok] at h
    obtain ⟨-, rfl⟩ := h
    refine ⟨rfl, rfl, ?_, fun k hk ↦ OrderedMap.get?_insert_of_ne hk⟩
    rw [OrderedMap.get?_insert_self, group, hlast, Option.getD_some, List.modifyLast_concat]
    rfl

/-- The first joined row of a snapshot. -/
theorem read_first (hnew : scan.lastId ≠ some joined.row.id)
    (h : scan.read serde request joined = .ok scan') :
    scan'.lastId = some joined.row.id ∧ scan'.rows = scan.rows + 1 ∧
      scan'.rows ≤ MAX_QUERY_SCAN_ROWS ∧
      (match request.position joined with
        | none => scan'.groups = scan.groups
        | some axis =>
          let point := Projected.start request joined axis
            ((serde.paths joined.exclusionsJson).getD [])
          Writes (groupKey joined.row) (scan.group (groupKey joined.row) ++
            [joined.cell.elim point fun cell ↦ point.fill request cell]) scan scan') := by
  simp only [read, bind_eq_ok, if_pos hnew] at h
  obtain ⟨axis, haxis, counted, hcount, hrest⟩ := h
  simp only [count, bind_eq_ok, exists_unit, reject_ok, pure_eq_ok, not_or, not_lt] at hcount
  obtain ⟨⟨hrows, -⟩, -, rfl⟩ := hcount
  unfold SnapshotQueryRequest.position
  rw [haxis]
  cases axis with
  | none =>
    obtain rfl := pure_eq_ok.mp hrest
    exact ⟨rfl, rfl, hrows, rfl⟩
  | some axis =>
    dsimp only at hrest ⊢
    split_ifs at hrest ⊢ with hwithin
    · obtain ⟨placed, hplace, hfill⟩ := bind_eq_ok.mp hrest
      unfold place at hplace
      cases hpaths : serde.paths joined.exclusionsJson with
      | none => simp [hpaths] at hplace
      | some exclusions =>
        simp only [hpaths] at hplace
        obtain rfl := Except.ok.inj hplace
        obtain ⟨hsame, hid, hwrites⟩ := fill_ok OrderedMap.get?_insert_self hfill
        refine ⟨hid, hsame, hsame ▸ hrows, hwrites.self, fun k hk ↦ ?_⟩
        exact (hwrites.other k hk).trans (OrderedMap.get?_insert_of_ne hk)
    · obtain rfl := pure_eq_ok.mp hrest
      exact ⟨rfl, rfl, hrows, rfl⟩

/-- Every further joined row of the same snapshot. -/
theorem read_more (hsame : scan.lastId = some joined.row.id)
    (h : scan.read serde request joined = .ok scan') :
    scan'.lastId = scan.lastId ∧ scan'.rows = scan.rows ∧
      (match request.position joined with
        | none => scan'.groups = scan.groups
        | some _ => ∀ before point,
          scan.groups.get? (groupKey joined.row) = some (before ++ [point]) →
          Writes (groupKey joined.row)
            (before ++ [joined.cell.elim point fun cell ↦ point.fill request cell]) scan scan') := by
  simp only [read, bind_eq_ok, hsame, ne_eq, not_true_eq_false, if_false] at h
  obtain ⟨axis, haxis, counted, hcount, hrest⟩ := h
  obtain rfl := Except.ok.inj hcount
  unfold SnapshotQueryRequest.position
  rw [haxis]
  cases axis with
  | none =>
    obtain rfl := pure_eq_ok.mp hrest
    exact ⟨rfl, rfl, rfl⟩
  | some axis =>
    dsimp only at hrest ⊢
    split_ifs at hrest ⊢ with hwithin
    · obtain ⟨placed, hplace, hfill⟩ := bind_eq_ok.mp hrest
      obtain rfl := Except.ok.inj hplace
      have hboth : scan'.lastId = scan.lastId ∧ scan'.rows = scan.rows := by
        unfold fill at hfill
        cases hcell : joined.cell with
        | none =>
          rw [hcell] at hfill
          obtain rfl := Except.ok.inj hfill
          exact ⟨rfl, rfl⟩
        | some cell =>
          simp only [hcell, bind_eq_ok, exists_unit, pure_eq_ok] at hfill
          obtain ⟨-, rfl⟩ := hfill
          exact ⟨rfl, rfl⟩
      exact ⟨hboth.1, hboth.2, fun before point hlast ↦ (fill_ok hlast hfill).2.2⟩
    · obtain rfl := pure_eq_ok.mp hrest
      exact ⟨rfl, rfl, rfl⟩

/-- The further joined rows of a snapshot fill its point. -/
theorem read_cells {cells : List (String × ℚ)} (hsame : scan.lastId = some joined.row.id)
    (h : (cells.map fun cell ↦ { joined with cell := some cell }).foldlM
      (Scan.read serde request) scan = .ok scan') :
    scan'.lastId = scan.lastId ∧ scan'.rows = scan.rows ∧
      (match request.position joined with
        | none => scan'.groups = scan.groups
        | some _ => ∀ before point,
          scan.groups.get? (groupKey joined.row) = some (before ++ [point]) →
          Writes (groupKey joined.row)
            (before ++ [cells.foldl (fun point cell ↦ point.fill request cell) point])
            scan scan') := by
  induction cells generalizing scan with
  | nil =>
    obtain rfl : scan = scan' := by simpa using h
    refine ⟨rfl, rfl, ?_⟩
    cases request.position joined with
    | none => rfl
    | some axis => exact fun before point hlast ↦ ⟨hlast, fun _ _ ↦ rfl⟩
  | cons cell rest ih =>
    rw [List.map_cons] at h
    obtain ⟨middle, hread, hrest⟩ := foldlM_cons_eq_ok.mp h
    obtain ⟨hid, hrows, hgroups⟩ := read_more (by exact hsame) hread
    obtain ⟨hid', hrows', hgroups'⟩ := ih (hid.trans hsame) hrest
    refine ⟨hid'.trans hid, hrows'.trans hrows, ?_⟩
    rw [request.position_cell] at hgroups
    cases hcase : request.position joined with
    | none =>
      rw [hcase] at hgroups hgroups'
      exact hgroups'.trans hgroups
    | some axis =>
      rw [hcase] at hgroups hgroups'
      intro before point hlast
      have hfirst := hgroups before point hlast
      have hothers := hgroups' before _ hfirst.self
      exact ⟨hothers.self, fun k hk ↦ (hothers.other k hk).trans (hfirst.other k hk)⟩

/-- All joined rows of a snapshot contribute its point. -/
theorem read_block {chart : ChartIndex} {row : SnapshotRow}
    (hjoined : (joinObservation request chart row).isSome) (hnew : scan.lastId ≠ some row.id)
    (h : (joinRow request chart row).foldlM (Scan.read serde request) scan = .ok scan') :
    scan'.lastId = some row.id ∧ scan'.rows = scan.rows + 1 ∧
      scan'.rows ≤ MAX_QUERY_SCAN_ROWS ∧
      (match pointOf serde request chart row with
        | none => scan'.groups = scan.groups
        | some point =>
          Writes (groupKey row) (scan.group (groupKey row) ++ [point]) scan scan') := by
  obtain ⟨joined, hsome⟩ := Option.isSome_iff_exists.mp hjoined
  have hrow : joined.row = row ∧ joined.cell = none := by
    unfold joinObservation at hsome
    split at hsome
    · obtain rfl := Option.some.inj hsome
      exact ⟨rfl, rfl⟩
    · simp at hsome
  obtain ⟨rfl, hcell⟩ := hrow
  unfold joinRow at h
  unfold pointOf
  rw [hsome] at h ⊢
  dsimp only [Option.bind_some] at h ⊢
  cases hcells : cellsOf request chart joined.row.id with
  | nil =>
    rw [hcells] at h
    obtain ⟨stop, hread, hstop⟩ := foldlM_cons_eq_ok.mp h
    obtain rfl : stop = scan' := by simpa using hstop
    obtain ⟨hid, hrows, hbound, hgroups⟩ := read_first hnew hread
    refine ⟨hid, hrows, hbound, ?_⟩
    cases hposition : request.position joined with
    | none =>
      rw [hposition] at hgroups
      exact hgroups
    | some axis =>
      rw [hposition, hcell] at hgroups
      exact hgroups
  | cons cell rest =>
    rw [hcells] at h
    dsimp only [List.map_cons] at h
    obtain ⟨middle, hread, hrest⟩ := foldlM_cons_eq_ok.mp h
    obtain ⟨hid, hrows, hbound, hgroups⟩ := read_first (by exact hnew) hread
    obtain ⟨hid', hrows', hgroups'⟩ := read_cells (by exact hid) hrest
    refine ⟨hid'.trans hid, hrows'.trans hrows, hrows' ▸ hbound, ?_⟩
    rw [request.position_cell] at hgroups
    cases hcase : request.position joined with
    | none =>
      rw [hcase] at hgroups hgroups'
      exact hgroups'.trans hgroups
    | some axis =>
      rw [hcase] at hgroups hgroups'
      have hothers := hgroups' _ _ hgroups.self
      exact ⟨hothers.self, fun k hk ↦ (hothers.other k hk).trans (hgroups.other k hk)⟩

/-! ## The whole join -/

/-- The points of the scanned rows of one source. -/
def pointsOf (serde : Serde) (request : SnapshotQueryRequest) (chart : ChartIndex)
    (key : String ×ₗ String) (rows : List SnapshotRow) : List Projected :=
  (rows.filter fun row ↦ groupKey row = key).filterMap (pointOf serde request chart)

/-- The state of the loop after the joined rows of some snapshots. -/
structure Tracks (serde : Serde) (request : SnapshotQueryRequest) (chart : ChartIndex)
    (rows : List SnapshotRow) (scan : Scan) : Prop where
  count : scan.rows = rows.length
  bounded : scan.rows ≤ MAX_QUERY_SCAN_ROWS
  last : scan.lastId = rows.getLast?.map SnapshotRow.id
  group : ∀ key, scan.group key = pointsOf serde request chart key rows
  nonempty : ∀ key points, scan.groups.get? key = some points → points ≠ []

theorem tracks_of_read {chart : ChartIndex} {rows : List SnapshotRow} {bytes : ℕ}
    (hjoined : ∀ row ∈ rows, (joinObservation request chart row).isSome)
    (hids : (rows.map SnapshotRow.id).Nodup)
    (h : (rows.flatMap (joinRow request chart)).foldlM (Scan.read serde request)
      ⟨OrderedMap.empty, 0, bytes, none⟩ = .ok scan) : scan.Tracks serde request chart rows := by
  induction rows using List.reverseRecOn generalizing scan with
  | nil =>
    obtain rfl : Scan.mk OrderedMap.empty 0 bytes none = scan := by simpa using h
    exact ⟨rfl, Nat.zero_le _, rfl, fun key ↦ rfl, fun key points hsome ↦ by simp at hsome⟩
  | append_singleton rows row ih =>
    rw [List.flatMap_append] at h
    obtain ⟨middle, hmiddle, hlast⟩ := foldlM_append_eq_ok.mp h
    rw [List.flatMap_singleton] at hlast
    rw [List.map_append, List.nodup_append] at hids
    have hold := ih (fun old hmem ↦ hjoined old (List.mem_append_left _ hmem)) hids.1 hmiddle
    have hnew : middle.lastId ≠ some row.id := by
      rw [hold.last]
      intro heq
      obtain ⟨last, hget, hid⟩ := Option.map_eq_some_iff.mp heq
      exact hids.2.2 _ (List.mem_map_of_mem (List.mem_of_getLast? hget)) row.id (by simp) hid
    obtain ⟨hid, hrows, hbound, hgroups⟩ := read_block (hjoined row (by simp)) hnew hlast
    have hpoints (key : String ×ₗ String) :
        pointsOf serde request chart key (rows ++ [row]) =
          pointsOf serde request chart key rows ++
            if groupKey row = key then (pointOf serde request chart row).toList else [] := by
      unfold pointsOf
      rw [List.filter_append, List.filterMap_append, List.filter_singleton]
      by_cases hkey : groupKey row = key
      · rw [decide_eq_true hkey, cond_true, if_pos hkey]
        cases hpoint : pointOf serde request chart row <;> simp [hpoint]
      · rw [decide_eq_false hkey, cond_false, if_neg hkey, List.filterMap_nil]
    refine ⟨by rw [hrows, hold.count, List.length_append, List.length_singleton], hbound,
      by rw [hid, List.getLast?_concat, Option.map_some], fun key ↦ ?_, fun key points hsome ↦ ?_⟩
    · rw [hpoints, ← hold.group]
      cases hpoint : pointOf serde request chart row with
      | none =>
        rw [hpoint] at hgroups
        rw [group, hgroups, Option.toList_none, ite_self, List.append_nil]
        rfl
      | some point =>
        rw [hpoint] at hgroups
        by_cases hkey : groupKey row = key
        · subst hkey
          rw [group, hgroups.self, Option.getD_some, if_pos rfl, Option.toList_some]
        · rw [group, hgroups.other key (Ne.symm hkey), if_neg hkey, List.append_nil]
          rfl
    · cases hpoint : pointOf serde request chart row with
      | none =>
        rw [hpoint] at hgroups
        exact hold.nonempty key points (hgroups ▸ hsome)
      | some point =>
        rw [hpoint] at hgroups
        by_cases hkey : key = groupKey row
        · subst hkey
          obtain rfl := Option.some.inj (hgroups.self.symm.trans hsome)
          simp
        · exact hold.nonempty key points ((hgroups.other key hkey) ▸ hsome)

end Scan

end Rvx.Engine
