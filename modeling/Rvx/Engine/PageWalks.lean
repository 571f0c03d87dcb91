import Rvx.Engine.Pages

/-!
# Walks over pages

The pages of the history that follow one another list every matching snapshot once, newest first,
whatever is ingested in between.  The pages of the latest snapshots do so by source as long as
nothing is ingested.
-/

namespace Rvx.Engine

open Core Check Database Paging StableSort

variable {serde : Serde}

/-! ## Reads of a store -/

/-- The states a client reads one after another: a store that is open at every read and takes any
steps in between. -/
structure Reads (serde : Serde) (stores : ℕ → Store) : Prop where
  reachable : (stores 0).Reachable serde
  ready : ∀ n, (stores n).phase = .ready
  later : ∀ n, ∃ actions, (stores n).run serde actions = some (stores (n + 1))
  inRange : ∀ n, ∀ row ∈ (stores n).db.snapshots, row.InRange

namespace Reads

variable {stores : ℕ → Store}

theorem reachable_all (h : Reads serde stores) (n : ℕ) : (stores n).Reachable serde := by
  induction n with
  | zero => exact h.reachable
  | succ n ih =>
    obtain ⟨actions, hrun⟩ := h.later n
    exact ih.run hrun

theorem grows (h : Reads serde stores) (n : ℕ) : Grows (stores n).db (stores (n + 1)).db := by
  obtain ⟨actions, hrun⟩ := h.later n
  exact (Store.run_consistent (h.reachable_all n).consistent hrun).2

theorem readable (h : Reads serde stores) (hserde : serde.RoundTrip) (n : ℕ) {row : SnapshotRow}
    (hrow : row ∈ (stores n).db.snapshots) : Readable serde row :=
  (h.reachable_all n).consistent.readable hserde (h.reachable_all n).listable hrow
    (h.inRange n row hrow)

/-- A row that does not lie above a stored one was stored already. -/
theorem stored_of_le (h : Reads serde stores) {n : ℕ} {row older : SnapshotRow}
    (hrow : row ∈ (stores n).db.snapshots) (holder : older ∈ (stores (n + 1)).db.snapshots)
    (hle : older.id ≤ row.id) : older ∈ (stores n).db.snapshots := by
  have hascending := (h.reachable_all (n + 1)).consistent.rows.ids_ascending
  obtain ⟨new, hnew⟩ := (h.grows n).snapshots
  rw [← hnew, List.map_append, List.pairwise_append] at hascending
  rw [← hnew, List.mem_append] at holder
  refine holder.resolve_right fun hin ↦ ?_
  exact not_lt_of_ge hle
    (hascending.2.2 row.id (List.mem_map_of_mem hrow) older.id (List.mem_map_of_mem hin))

end Reads

/-- The cursor after a page may be read off the last row as well as off its stored snapshot. -/
theorem last_storedOf {κ : Type} {rows : List SnapshotRow} (column : StoredSnapshot → κ)
    (rowColumn : SnapshotRow → κ) (hsame : ∀ row ∈ rows, column (storedOf serde row) = rowColumn row)
    (count : ℕ) : (rows.take count).getLast?.map (fun row ↦ column (storedOf serde row)) =
      (rows.take count).getLast?.map rowColumn := by
  apply Option.map_congr
  intro row hrow
  exact hsame row (List.mem_of_mem_take (List.mem_of_getLast? hrow))

/-! ## History -/

section History

variable {request : SnapshotHistoryRequest}

/-- The request for the page at a cursor. -/
def SnapshotHistoryRequest.at (request : SnapshotHistoryRequest) (cursor : Option ℤ) :
    SnapshotHistoryRequest := { request with beforeId := cursor }

/-- The history read at a cursor, with the cursor of the next page. -/
def historyAt (serde : Serde) (request : SnapshotHistoryRequest) (db : Database)
    (cursor : Option ℤ) : Except EngineError (List StoredSnapshot × Option ℤ) :=
  (history serde (request.at cursor) db).map fun page ↦ (page.snapshots, page.nextBeforeId)

theorem mem_historyRows {db : Database} {row : SnapshotRow} {cursor : Option ℤ} :
    row ∈ historyRows (request.at cursor) db ↔
      (row ∈ db.snapshots ∧ (request.at none).selects row = true) ∧
        ∀ id ∈ cursor, (row.id : ℤ) < id := by
  rw [historyRows, mem_sortOn, List.mem_filter, and_assoc]
  apply and_congr_right
  intro _
  simp only [SnapshotHistoryRequest.selects, SnapshotHistoryRequest.at, Bool.and_eq_true,
    Option.all_none]
  cases cursor with
  | none => simp
  | some id =>
    simp only [Option.all_some, decide_eq_true_eq, Option.mem_some_iff, forall_eq']
    tauto

theorem ordered_historyRows {db : Database} (hdb : Consistent db) :
    (historyRows request db).Pairwise fun row older ↦
      OrderDual.toDual row.id < OrderDual.toDual older.id := by
  apply ordered_sortOn
  have hnodup : (db.snapshots.map SnapshotRow.id).Nodup :=
    hdb.rows.ids_ascending.imp fun hlt ↦ hlt.ne
  have hids : (db.snapshots.map fun row ↦ OrderDual.toDual row.id).Nodup := hnodup
  exact hids.sublist (List.filter_sublist.map _)

theorem checkHistory_at {cursor : Option ℤ} (h : checkHistory request = .ok ())
    (hcursor : ∀ id ∈ cursor, 0 < id) : checkHistory (request.at cursor) = .ok () := by
  simp only [checkHistory, bind_eq_ok, exists_unit, reject_ok] at h ⊢
  refine ⟨h.1, h.2.1, ?_⟩
  cases cursor with
  | none => simp [SnapshotHistoryRequest.at]
  | some id =>
    have hpos := hcursor id rfl
    simpa [SnapshotHistoryRequest.at] using hpos

theorem validatePage_limit {runId : String} {sources : List String} {limit : ℕ}
    (h : validatePage runId sources limit = .ok ()) : 0 < limit := by
  simp only [validatePage, bind_eq_ok, exists_unit, reject_ok, not_or] at h
  exact Nat.pos_of_ne_zero h.2.2.1

/-- A page of the history is a part of the rows after its cursor. -/
theorem history_answers {db : Database} (hreadable : ∀ row ∈ db.snapshots, Readable serde row)
    {cursor : Option ℤ} (hcheck : checkHistory (request.at cursor) = .ok ()) :
    Answers (fun row ↦ (row.id : ℤ)) (storedOf serde) (historyRows (request.at cursor) db)
      (historyAt serde request db cursor) := by
  have hlimit : 0 < (request.at cursor).limit := by
    simp only [checkHistory, bind_eq_ok, exists_unit] at hcheck
    exact validatePage_limit hcheck.1
  have hrows : ∀ row ∈ historyRows (request.at cursor) db, Readable serde row :=
    fun row hrow ↦ hreadable row (mem_historyRows.mp hrow).1.1
  obtain ⟨count, hpos, hpage⟩ := page_ok hrows hlimit
  refine ⟨count, hpos, ?_⟩
  have hlast := last_storedOf (fun stored ↦ (stored.id : ℤ)) (fun row ↦ (row.id : ℤ))
    (fun row hrow ↦ congrArg Nat.cast (storedOf_id (hrows row hrow)).1) count
  rw [historyAt, history, hcheck]
  simp only [hpage, bind, Except.bind, pure, Except.pure, Except.map, decide_eq_true_eq,
    List.getLast?_map, Option.map_map, Function.comp_def, hlast]

/-- The pages of the history, for all reads. -/
theorem history_listing {stores : ℕ → Store} (h : Reads serde stores) :
    Listing (fun row : SnapshotRow ↦ OrderDual.toDual row.id) (fun id row ↦ (row.id : ℤ) < id)
      (fun row ↦ (row.id : ℤ))
      (fun n row ↦ row ∈ (stores n).db.snapshots ∧ (request.at none).selects row = true)
      (fun n cursor ↦ historyRows (request.at cursor) (stores n).db) where
  ordered n _ := ordered_historyRows (h.reachable_all n).consistent
  mem _ _ _ := mem_historyRows
  after_cursorOf n last row _ := by
    rw [OrderDual.toDual_lt_toDual]
    exact Nat.cast_lt
  after_trans id row later hafter hlt := by
    rw [OrderDual.toDual_lt_toDual] at hlt
    exact lt_trans (Nat.cast_lt.mpr hlt) hafter
  stays n row hmatch := ⟨(h.grows n).snapshots.subset hmatch.1, hmatch.2⟩
  ahead n row later hrow hlater hlt :=
    ⟨h.stored_of_le hrow.1 hlater.1 (le_of_lt (OrderDual.toDual_lt_toDual.mp hlt)), hlater.2⟩

/-- Following the cursors lists the matching rows of the first read, newest first. -/
theorem history_walk (hserde : serde.RoundTrip) {stores : ℕ → Store} (h : Reads serde stores)
    (hcheck : checkHistory request = .ok ()) {items : List StoredSnapshot} :
    Walk (fun n cursor ↦ historyAt serde request (stores n).db cursor) 0 request.beforeId items ↔
      items = (historyRows request (stores 0).db).map (storedOf serde) := by
  have hpos (n : ℕ) (row : SnapshotRow) (hrow : row ∈ (stores n).db.snapshots ∧
      (request.at none).selects row = true) : 0 < (row.id : ℤ) := by
    exact_mod_cast (h.reachable_all n).consistent.rows.ids_pos row hrow.1
  have hstart : ∀ id ∈ request.beforeId, 0 < id := by
    simp only [checkHistory, bind_eq_ok, exists_unit, reject_ok] at hcheck
    intro id hid
    have hnot := hcheck.2.2
    rw [Option.mem_def.mp hid] at hnot
    simpa using hnot
  exact (history_listing h).walk_iff hpos
    (fun n cursor hcursor ↦ history_answers (fun row hrow ↦ h.readable hserde n hrow)
      (checkHistory_at hcheck hcursor)) hstart

end History

/-! ## Latest snapshots -/

section Latest

variable {request : SnapshotLatestRequest} {heads : List HeadRow} {db : Database}

def SnapshotLatestRequest.at (request : SnapshotLatestRequest) (cursor : Option String) :
    SnapshotLatestRequest := { request with afterSourceId := cursor }

/-- The latest snapshots read at a cursor, with the cursor of the next page. -/
def latestAt (serde : Serde) (request : SnapshotLatestRequest) (db : Database)
    (cursor : Option String) : Except EngineError (List StoredSnapshot × Option String) :=
  (latest serde (request.at cursor) db).map fun page ↦ (page.snapshots, page.nextSourceId)

/-- The clauses over the heads. -/
def SnapshotLatestRequest.Selects (request : SnapshotLatestRequest) (head : HeadRow) : Prop :=
  head.runId = request.runId ∧ (request.sourceIds = [] ∨ head.sourceId ∈ request.sourceIds) ∧
    ∀ source ∈ request.afterSourceId, source < head.sourceId

instance (head : HeadRow) : Decidable (request.Selects head) := inferInstanceAs (Decidable (_ ∧ _))

/-- The selected heads, `ORDER BY source_id`. -/
def latestHeads (request : SnapshotLatestRequest) (heads : List HeadRow) : List HeadRow :=
  (heads.filter request.Selects).mergeSort fun head other ↦ head.sourceId ≤ other.sourceId

/-- The rows that heads point at, `ORDER BY source_id`. -/
def pointedRows (heads : List HeadRow) (db : Database) : List SnapshotRow :=
  (db.snapshots.filter fun row ↦ row.id ∈ heads.map HeadRow.snapshotId).mergeSort
    fun row other ↦ row.sourceId ≤ other.sourceId

theorem latestRows_eq (hheads : db.heads = some heads) :
    latestRows request db =
      .ok (pointedRows ((latestHeads request heads).take (request.limit + 1)) db) := by
  rw [latestRows, hheads]
  rfl

theorem mem_latestHeads {head : HeadRow} :
    head ∈ latestHeads request heads ↔ head ∈ heads ∧ request.Selects head := by
  rw [latestHeads, List.mem_mergeSort, List.mem_filter, decide_eq_true_eq]

theorem mem_pointedRows {row : SnapshotRow} :
    row ∈ pointedRows heads db ↔
      row ∈ db.snapshots ∧ ∃ head ∈ heads, head.snapshotId = row.id := by
  rw [pointedRows, List.mem_mergeSort, List.mem_filter, decide_eq_true_eq, List.mem_map]

/-- A sorted list whose keys are distinct is sorted strictly. -/
theorem ordered_mergeSort {α : Type} {key : α → String} {list : List α}
    (h : (list.map key).Nodup) :
    (list.mergeSort fun a b ↦ key a ≤ key b).Pairwise fun a b ↦ key a < key b := by
  have hsorted : (list.mergeSort fun a b ↦ key a ≤ key b).Pairwise
      fun a b ↦ decide (key a ≤ key b) = true := by
    apply List.pairwise_mergeSort
    · intro a b c hab hbc
      exact decide_eq_true (le_trans (of_decide_eq_true hab) (of_decide_eq_true hbc))
    · intro a b
      simpa using le_total (key a) (key b)
  have hnodup : ((list.mergeSort fun a b ↦ key a ≤ key b).map key).Nodup :=
    ((List.mergeSort_perm list _).map key).nodup_iff.mpr h
  exact (hsorted.and (List.pairwise_map.mp hnodup)).imp fun hand ↦
    lt_of_le_of_ne (of_decide_eq_true hand.1) hand.2

/-- The selected heads are in the order of their sources. -/
theorem ordered_latestHeads (hvalid : HeadsValid db.snapshots heads) :
    (latestHeads request heads).Pairwise fun head other ↦ head.sourceId < other.sourceId := by
  apply ordered_mergeSort
  have hkeys : ((heads.filter request.Selects).map headKey).Nodup :=
    hvalid.1.sublist (List.filter_sublist.map _)
  rw [List.Nodup, List.pairwise_map] at hkeys ⊢
  refine hkeys.imp_of_mem fun hhead hother hne heq ↦ hne ?_
  have hrun := (of_decide_eq_true (List.mem_filter.mp hhead).2).1
  have hrun' := (of_decide_eq_true (List.mem_filter.mp hother).2).1
  rw [headKey, headKey, hrun, hrun', heq]

/-- Heads of distinct sources that point at rows of their own source. -/
structure Pointing (heads : List HeadRow) (db : Database) : Prop where
  ordered : heads.Pairwise fun head other ↦ head.sourceId < other.sourceId
  rows : ∀ head ∈ heads, ∃ row ∈ db.snapshots, row.id = head.snapshotId ∧ row.sourceId = head.sourceId

theorem Pointing.take (h : Pointing heads db) (count : ℕ) : Pointing (heads.take count) db :=
  ⟨h.ordered.sublist (List.take_sublist count heads),
    fun head hhead ↦ h.rows head (List.mem_of_mem_take hhead)⟩

theorem HeadsValid.pointing (hvalid : HeadsValid db.snapshots heads) :
    Pointing (latestHeads request heads) db := by
  refine ⟨ordered_latestHeads hvalid, fun head hhead ↦ ?_⟩
  obtain ⟨row, hrow, hid, -, hsource⟩ := hvalid.2 head (mem_latestHeads.mp hhead).1
  exact ⟨row, hrow, hid, hsource⟩

/-- A row belongs to the source of the head that points at it. -/
theorem HeadsValid.source (hvalid : HeadsValid db.snapshots heads) (hdb : Consistent db)
    {row : SnapshotRow} {head : HeadRow} (hrow : row ∈ db.snapshots) (hhead : head ∈ heads)
    (hid : head.snapshotId = row.id) : row.sourceId = head.sourceId := by
  obtain ⟨other, hother, hsame, -, hsource⟩ := hvalid.2 head hhead
  rw [hdb.rows.eq_of_id hrow hother (hid.symm.trans hsame.symm), hsource]

theorem Pointing.source (h : Pointing heads db) (hdb : Consistent db) {row : SnapshotRow}
    {head : HeadRow} (hrow : row ∈ db.snapshots) (hhead : head ∈ heads)
    (hid : head.snapshotId = row.id) : row.sourceId = head.sourceId := by
  obtain ⟨other, hother, hsame, hsource⟩ := h.rows head hhead
  rw [hdb.rows.eq_of_id hrow hother (hid.symm.trans hsame.symm), hsource]

theorem Pointing.ordered_pointedRows (h : Pointing heads db) (hdb : Consistent db) :
    (pointedRows heads db).Pairwise fun row other ↦ row.sourceId < other.sourceId := by
  apply ordered_mergeSort
  have hids : ((db.snapshots.filter fun row ↦ row.id ∈ heads.map HeadRow.snapshotId).map
      SnapshotRow.id).Nodup :=
    (hdb.rows.ids_ascending.imp fun hlt ↦ hlt.ne).sublist (List.filter_sublist.map _)
  rw [List.Nodup, List.pairwise_map] at hids ⊢
  refine hids.imp_of_mem fun {row other} hrow hother hne heq ↦ hne ?_
  obtain ⟨hrow, head, hhead, hid⟩ := mem_pointedRows.mp (List.mem_mergeSort.mpr hrow)
  obtain ⟨hother, head', hhead', hid'⟩ := mem_pointedRows.mp (List.mem_mergeSort.mpr hother)
  have hsource : head.sourceId = head'.sourceId := by
    rw [← h.source hdb hrow hhead hid, heq, h.source hdb hother hhead' hid']
  have hnodup : (heads.map HeadRow.sourceId).Nodup :=
    List.pairwise_map.mpr (h.ordered.imp fun hlt ↦ hlt.ne)
  rw [← hid, ← hid', List.inj_on_of_nodup_map hnodup hhead hhead' hsource]

theorem Pointing.nodup_heads (h : Pointing heads db) : (heads.map HeadRow.sourceId).Nodup :=
  List.pairwise_map.mpr (h.ordered.imp fun hlt ↦ hlt.ne)

theorem Pointing.nodup_pointedRows (h : Pointing heads db) (hdb : Consistent db) :
    ((pointedRows heads db).map SnapshotRow.sourceId).Nodup :=
  List.pairwise_map.mpr ((h.ordered_pointedRows hdb).imp fun hlt ↦ hlt.ne)

/-- The rows stand in the order of their heads. -/
theorem Pointing.map_sourceId (h : Pointing heads db) (hdb : Consistent db) :
    (pointedRows heads db).map SnapshotRow.sourceId = heads.map HeadRow.sourceId := by
  apply @eq_of_ordered _ _ _ id
  · exact List.pairwise_map.mpr (h.ordered_pointedRows hdb)
  · exact List.pairwise_map.mpr h.ordered
  · intro source
    rw [List.mem_map, List.mem_map]
    constructor
    · rintro ⟨row, hrow, rfl⟩
      obtain ⟨hrow, head, hhead, hid⟩ := mem_pointedRows.mp hrow
      exact ⟨head, hhead, (h.source hdb hrow hhead hid).symm⟩
    · rintro ⟨head, hhead, rfl⟩
      obtain ⟨row, hrow, hid, hsource⟩ := h.rows head hhead
      exact ⟨row, mem_pointedRows.mpr ⟨hrow, head, hhead, hid.symm⟩, hsource⟩

/-- The first heads point at the first rows. -/
theorem Pointing.pointedRows_take (h : Pointing heads db) (hdb : Consistent db) (count : ℕ) :
    pointedRows (heads.take count) db = (pointedRows heads db).take count := by
  have hsources : ((pointedRows heads db).take count).map SnapshotRow.sourceId =
      (heads.take count).map HeadRow.sourceId := by
    rw [List.map_take, h.map_sourceId hdb, List.map_take]
  apply eq_of_ordered ((h.take count).ordered_pointedRows hdb)
    ((h.ordered_pointedRows hdb).sublist (List.take_sublist count _))
  intro row
  constructor
  · intro hrow
    obtain ⟨hstored, head, hhead, hid⟩ := mem_pointedRows.mp hrow
    have hpointed : row ∈ pointedRows heads db :=
      mem_pointedRows.mpr ⟨hstored, head, List.mem_of_mem_take hhead, hid⟩
    have hsource : head.sourceId ∈ ((pointedRows heads db).take count).map SnapshotRow.sourceId := by
      rw [hsources]
      exact List.mem_map_of_mem hhead
    obtain ⟨other, hother, heq⟩ := List.mem_map.mp hsource
    have hsame : other = row := by
      apply List.inj_on_of_nodup_map (h.nodup_pointedRows hdb) (List.mem_of_mem_take hother) hpointed
      rw [heq, (h.take count).source hdb hstored hhead hid]
    exact hsame ▸ hother
  · intro hrow
    obtain ⟨hstored, head, hhead, hid⟩ := mem_pointedRows.mp (List.mem_of_mem_take hrow)
    have hsource : row.sourceId ∈ (heads.take count).map HeadRow.sourceId := by
      rw [← hsources]
      exact List.mem_map_of_mem hrow
    obtain ⟨other, hother, heq⟩ := List.mem_map.mp hsource
    have hsame : other = head := by
      apply List.inj_on_of_nodup_map h.nodup_heads (List.mem_of_mem_take hother) hhead
      rw [heq, h.source hdb hstored hhead hid]
    exact mem_pointedRows.mpr ⟨hstored, head, hsame ▸ hother, hid⟩

theorem checkLatest_at {cursor : Option String} (h : checkLatest request = .ok ())
    (hcursor : ∀ source ∈ cursor, checkIds [source] 1 = .ok ()) :
    checkLatest (request.at cursor) = .ok () := by
  simp only [checkLatest, bind_eq_ok, exists_unit, forM_eq_ok] at h ⊢
  refine ⟨h.1, fun source hsource ↦ hcursor source ?_⟩
  exact Option.mem_toList.mp hsource

/-- A page of the latest snapshots is a part of the rows after its cursor. -/
theorem latest_answers (hdb : Consistent db) (hreadable : ∀ row ∈ db.snapshots, Readable serde row)
    (hheads : db.heads = some heads) (hvalid : HeadsValid db.snapshots heads)
    {cursor : Option String} (hcheck : checkLatest (request.at cursor) = .ok ()) :
    Answers SnapshotRow.sourceId (storedOf serde)
      (pointedRows (latestHeads (request.at cursor) heads) db) (latestAt serde request db cursor) := by
  have hlimit : 0 < (request.at cursor).limit := by
    simp only [checkLatest, bind_eq_ok, exists_unit] at hcheck
    exact validatePage_limit hcheck.1
  have hrows : ∀ row ∈ pointedRows (latestHeads (request.at cursor) heads) db, Readable serde row :=
    fun row hrow ↦ hreadable row (mem_pointedRows.mp hrow).1
  obtain ⟨count, hpos, hpage⟩ := page_ok hrows hlimit
  refine ⟨count, hpos, ?_⟩
  have hlast := last_storedOf StoredSnapshot.sourceId SnapshotRow.sourceId
    (fun row hrow ↦ (storedOf_id (hrows row hrow)).2) count
  rw [latestAt, latest, hcheck, latestRows_eq hheads, hvalid.pointing.pointedRows_take hdb]
  simp only [hpage, bind, Except.bind, pure, Except.pure, Except.map, decide_eq_true_eq,
    List.getLast?_map, Option.map_map, Function.comp_def, hlast]

/-- The pages of the latest snapshots, for reads of one state. -/
theorem latest_listing (hdb : Consistent db) (hvalid : HeadsValid db.snapshots heads) :
    Listing SnapshotRow.sourceId (fun source row ↦ source < row.sourceId) SnapshotRow.sourceId
      (fun _ row ↦ row ∈ pointedRows (latestHeads (request.at none) heads) db)
      (fun _ cursor ↦ pointedRows (latestHeads (request.at cursor) heads) db) where
  ordered _ _ := hvalid.pointing.ordered_pointedRows hdb
  mem n cursor row := by
    simp only [mem_pointedRows, mem_latestHeads, SnapshotLatestRequest.Selects,
      SnapshotLatestRequest.at]
    constructor
    · rintro ⟨hrow, head, ⟨hhead, hrun, hsource, hafter⟩, hid⟩
      have hsame := hvalid.source hdb hrow hhead hid
      exact ⟨⟨hrow, head, ⟨hhead, hrun, hsource, by simp⟩, hid⟩, hsame ▸ hafter⟩
    · rintro ⟨⟨hrow, head, ⟨hhead, hrun, hsource, -⟩, hid⟩, hafter⟩
      have hsame := hvalid.source hdb hrow hhead hid
      exact ⟨hrow, head, ⟨hhead, hrun, hsource, hsame ▸ hafter⟩, hid⟩
  after_cursorOf _ _ _ _ := Iff.rfl
  after_trans _ _ _ hafter hlt := lt_trans hafter hlt
  stays _ _ hrow := hrow
  ahead _ _ _ _ hlater _ := hlater

/-- Following the cursors lists the rows of the selected heads, by source. -/
theorem latest_walk (hserde : serde.RoundTrip) {store : Store} (hstore : store.Reachable serde)
    (hrange : ∀ row ∈ store.db.snapshots, row.InRange) (hheads : store.db.heads = some heads)
    (hcheck : checkLatest request = .ok ()) {items : List StoredSnapshot} :
    Walk (fun _ cursor ↦ latestAt serde request store.db cursor) 0 request.afterSourceId items ↔
      items = (pointedRows (latestHeads request heads) store.db).map (storedOf serde) := by
  have hvalid := hstore.listable.heads heads hheads
  have hreadable : ∀ row ∈ store.db.snapshots, Readable serde row := fun row hrow ↦
    hstore.consistent.readable hserde hstore.listable hrow (hrange row hrow)
  have hnamed (n : ℕ) (row : SnapshotRow)
      (hrow : row ∈ pointedRows (latestHeads (request.at none) heads) store.db) :
      checkIds [row.sourceId] 1 = .ok () :=
    (hstore.listable.named row (mem_pointedRows.mp hrow).1).2
  have hstart : ∀ source ∈ request.afterSourceId, checkIds [source] 1 = .ok () := by
    simp only [checkLatest, bind_eq_ok, exists_unit, forM_eq_ok] at hcheck
    exact fun source hsource ↦ hcheck.2 source (Option.mem_toList.mpr hsource)
  exact (latest_listing hstore.consistent hvalid).walk_iff hnamed
    (fun _ cursor hcursor ↦ latest_answers hstore.consistent hreadable hheads hvalid
      (checkLatest_at hcheck hcursor)) hstart

end Latest

end Rvx.Engine
