import Rvx.Engine.Lineage

/-!
# Complete pagination

Every page of the store answers with the cursor of the next one.  Following the cursors lists what
a request selects, each item once and in order, however many items the limit and the response
budget let onto a page.
-/

namespace Rvx.Engine

open Core Check Paging StableSort

variable {serde : Serde} {records : String → Option ArtifactRecord} {stores : ℕ → Store}

/-! ## What the pages list -/

/-- The stored snapshots a history request selects. -/
def InHistory (serde : Serde) (request : SnapshotHistoryRequest) (db : Database)
    (item : StoredSnapshot) : Prop :=
  ∃ row ∈ db.snapshots, request.selects row = true ∧ fromRow serde row = .ok item

/-- The stored snapshots that the selected heads point at. -/
def IsLatest (serde : Serde) (request : SnapshotLatestRequest) (db : Database)
    (item : StoredSnapshot) : Prop :=
  ∃ heads, db.heads = some heads ∧ ∃ head ∈ heads, request.Selects head ∧
    ∃ row ∈ db.snapshots, row.id = head.snapshotId ∧ fromRow serde row = .ok item

/-- The listed artifact records a lineage request selects. -/
def InLineage (records : String → Option ArtifactRecord) (request : ArtifactLineageRequest)
    (db : Database) (item : ArtifactLineageRecord) : Prop :=
  ∃ artifacts, db.artifacts = some artifacts ∧ ∃ row ∈ artifacts.lineage,
    request.selects row = true ∧ lineageRow records row = .ok item

def ArtifactLineageRecord.place (artifact : ArtifactLineageRecord) : ℕ ×ₗ ℕ :=
  toLex (artifact.snapshotId, artifact.artifactIndex)

/-! ## The three listings -/

/-- The pages of the history list the matching snapshots of the first read, newest first. -/
theorem history_listsOnce (hserde : serde.RoundTrip) (h : Reads serde stores)
    {request : SnapshotHistoryRequest} (hcheck : checkHistory request = .ok ()) :
    ListsOnce (fun n cursor ↦ historyAt serde request (stores n).db cursor) request.beforeId
      (fun newer item ↦ item.id < newer.id) (InHistory serde request (stores 0).db) := by
  have hread : ∀ row ∈ historyRows request (stores 0).db, Readable serde row :=
    fun row hrow ↦ h.readable hserde 0 (mem_historyRows.mp hrow).1.1
  apply listsOnce_of_map fun _ ↦ history_walk hserde h hcheck
  · refine (ordered_historyRows (h.reachable_all 0).consistent).imp_of_mem ?_
    intro row older hrow holder hlt
    rw [(storedOf_id (hread row hrow)).1, (storedOf_id (hread older holder)).1]
    exact OrderDual.toDual_lt_toDual.mp hlt
  · intro item
    constructor
    · rintro ⟨row, hrow, hitem⟩
      have hmem := hrow
      rw [historyRows, mem_sortOn, List.mem_filter] at hmem
      exact ⟨row, hmem.1, hmem.2, (fromRow_eq_ok (hread row hrow)).mpr hitem.symm⟩
    · rintro ⟨row, hrow, hselects, hitem⟩
      have hmem : row ∈ historyRows request (stores 0).db := by
        rw [historyRows, mem_sortOn, List.mem_filter]
        exact ⟨hrow, hselects⟩
      exact ⟨row, hmem, ((fromRow_eq_ok (hread row hmem)).mp hitem).symm⟩

/-- The pages of the latest snapshots of one state list those of the selected heads, by source. -/
theorem latest_listsOnce (hserde : serde.RoundTrip) (h : Reads serde stores)
    {request : SnapshotLatestRequest} (hcheck : checkLatest request = .ok ()) :
    ListsOnce (fun _ cursor ↦ latestAt serde request (stores 0).db cursor) request.afterSourceId
      (fun item later ↦ item.sourceId < later.sourceId)
      (IsLatest serde request (stores 0).db) := by
  obtain ⟨heads, hheads⟩ :=
    Option.isSome_iff_exists.mp (h.reachable.accepting hserde (h.ready 0)).heads
  have hvalid := h.reachable.listable.heads heads hheads
  have hread : ∀ row ∈ pointedRows (latestHeads request heads) (stores 0).db, Readable serde row :=
    fun row hrow ↦ h.readable hserde 0 (mem_pointedRows.mp hrow).1
  apply listsOnce_of_map fun _ ↦ latest_walk hserde h.reachable (h.inRange 0) hheads hcheck
  · refine (hvalid.pointing.ordered_pointedRows h.reachable.consistent).imp_of_mem ?_
    intro row later hrow hlater hlt
    rw [(storedOf_id (hread row hrow)).2, (storedOf_id (hread later hlater)).2]
    exact hlt
  · intro item
    constructor
    · rintro ⟨row, hrow, hitem⟩
      obtain ⟨hstored, head, hhead, hid⟩ := mem_pointedRows.mp hrow
      obtain ⟨hhead, hselects⟩ := mem_latestHeads.mp hhead
      exact ⟨heads, hheads, head, hhead, hselects, row, hstored, hid.symm,
        (fromRow_eq_ok (hread row hrow)).mpr hitem.symm⟩
    · rintro ⟨heads', hheads', head, hhead, hselects, row, hstored, hid, hitem⟩
      rw [hheads, Option.some.injEq] at hheads'
      subst hheads'
      have hmem : row ∈ pointedRows (latestHeads request heads) (stores 0).db :=
        mem_pointedRows.mpr ⟨hstored, head, mem_latestHeads.mpr ⟨hhead, hselects⟩, hid.symm⟩
      exact ⟨row, hmem, ((fromRow_eq_ok (hread row hmem)).mp hitem).symm⟩

/-- The pages of the lineage list the matching records of the first read, newest first. -/
theorem lineage_listsOnce (hserde : serde.RoundTrip) (hrecords : RecordsRoundTrip records)
    (h : Reads serde stores) {request : ArtifactLineageRequest}
    (hcheck : checkLineage request = .ok ()) :
    ListsOnce (fun n cursor ↦ lineageAt records request (stores n).db cursor) request.before
      (fun newer item ↦ ArtifactLineageRecord.place item < ArtifactLineageRecord.place newer)
      (InLineage records request (stores 0).db) := by
  obtain ⟨artifacts, hsome, hlineage⟩ := h.reachable.artifacts hserde (h.ready 0)
  have hread : ∀ row ∈ (stores 0).db.lineage serde, ReadableRecord records row :=
    fun row hrow ↦ h.readableRecord hserde hrecords 0 hrow
  have hmem (row : LineageRow) : row ∈ selectedLineage request ((stores 0).db.lineage serde) ↔
      row ∈ (stores 0).db.lineage serde ∧ request.selects row = true := by
    rw [selectedLineage, mem_sortOn, List.mem_filter]
  apply listsOnce_of_map fun _ ↦ lineage_walk h hserde hrecords hcheck
  · refine (ordered_selectedLineage h.reachable.consistent).imp_of_mem ?_
    intro row older hrow holder hlt
    have hrow := hread row ((hmem row).mp hrow).1
    have holder := hread older ((hmem older).mp holder).1
    obtain ⟨hid, hindex⟩ := artifactOf_place hrow
    obtain ⟨hid', hindex'⟩ := artifactOf_place holder
    rw [OrderDual.toDual_lt_toDual, LineageRow.place, LineageRow.place,
      Prod.Lex.toLex_lt_toLex] at hlt
    rw [ArtifactLineageRecord.place, ArtifactLineageRecord.place, Prod.Lex.toLex_lt_toLex, hid,
      hid', hindex, hindex']
    have hnonneg := hrow.1
    have hnonneg' := holder.1
    dsimp only at hlt ⊢
    omega
  · intro item
    constructor
    · rintro ⟨row, hrow, hitem⟩
      obtain ⟨hlisted, hselects⟩ := (hmem row).mp hrow
      exact ⟨artifacts, hsome, row, hlineage ▸ hlisted, hselects,
        (lineageRow_eq_ok (hread row hlisted)).mpr hitem.symm⟩
    · rintro ⟨artifacts', hsome', row, hrow, hselects, hitem⟩
      rw [hsome, Option.some.injEq] at hsome'
      subst hsome'
      have hlisted : row ∈ (stores 0).db.lineage serde := hlineage ▸ hrow
      exact ⟨row, (hmem row).mpr ⟨hlisted, hselects⟩,
        ((lineageRow_eq_ok (hread row hlisted)).mp hitem).symm⟩

/-- Following the cursors of any listing from the first page to the last lists everything that
matched at the first read once and in order. -/
theorem pages_complete (hserde : serde.RoundTrip) (hrecords : RecordsRoundTrip records)
    (h : Reads serde stores) :
    (∀ request, checkHistory request = .ok () →
      ListsOnce (fun n cursor ↦ historyAt serde request (stores n).db cursor) request.beforeId
        (fun newer item ↦ item.id < newer.id) (InHistory serde request (stores 0).db)) ∧
    (∀ request, checkLatest request = .ok () →
      ListsOnce (fun _ cursor ↦ latestAt serde request (stores 0).db cursor) request.afterSourceId
        (fun item later ↦ item.sourceId < later.sourceId)
        (IsLatest serde request (stores 0).db)) ∧
    ∀ request, checkLineage request = .ok () →
      ListsOnce (fun n cursor ↦ lineageAt records request (stores n).db cursor) request.before
        (fun newer item ↦ ArtifactLineageRecord.place item < ArtifactLineageRecord.place newer)
        (InLineage records request (stores 0).db) :=
  ⟨fun _ hcheck ↦ history_listsOnce hserde h hcheck,
    fun _ hcheck ↦ latest_listsOnce hserde h hcheck,
    fun _ hcheck ↦ lineage_listsOnce hserde hrecords h hcheck⟩

/-- A tracker state that lists an artifact. -/
def sampleListing : Json :=
  .literal [("artifacts", .array [.literal [("action", .text "log"), ("digest", .text "d"),
      ("name", .text "model"), ("size", .int 0), ("type", .text "checkpoint"), ("uri", .text "u")]]),
    ("tracker", .literal [("step", .int 0)])]

/-- Two snapshots that list an artifact, and a third one that is ingested between two reads. -/
def sampleRead : List Action :=
  openNew ++ [.ingestBatch
    [sampleDelivery 0 none [sampleSnapshot 0 sampleListing, sampleSnapshot 1 sampleListing]]]

def sampleBetween : List Action :=
  [.ingestBatch [sampleDelivery 2 none [sampleSnapshot 2 sampleListing]]]

theorem pages_complete_sample :
    ∃ stores, Reads (.inverse []) stores ∧
      (stores 0).db.snapshots.map SnapshotRow.id = [1, 2] ∧
      (stores 1).db.snapshots.map SnapshotRow.id = [1, 2, 3] ∧
      (((stores 0).db.lineage (.inverse [])).map fun row ↦ (row.snapshotId, row.artifactIndex)) =
        [(1, 0), (2, 0)] ∧
      ListsOnce (fun n cursor ↦ historyAt (.inverse []) ⟨"run-1", [], none, none, none, 1⟩
          (stores n).db cursor) none
        (fun newer item ↦ item.id < newer.id)
        (InHistory (.inverse []) ⟨"run-1", [], none, none, none, 1⟩ (stores 0).db) ∧
      ListsOnce (fun _ cursor ↦ latestAt (.inverse []) ⟨"run-1", [], none, 1⟩ (stores 0).db cursor)
        none (fun item later ↦ item.sourceId < later.sourceId)
        (IsLatest (.inverse []) ⟨"run-1", [], none, 1⟩ (stores 0).db) ∧
      ListsOnce (fun n cursor ↦ lineageAt recordsInverse ⟨["run-1"], [], none, none, none, none, 1⟩
          (stores n).db cursor) none
        (fun newer item ↦ ArtifactLineageRecord.place item < ArtifactLineageRecord.place newer)
        (InLineage recordsInverse ⟨["run-1"], [], none, none, none, none, 1⟩ (stores 0).db) := by
  have hfirst : (Store.init.run (.inverse []) sampleRead).map (fun store ↦
      (store.phase, decide (∀ row ∈ store.db.snapshots, row.InRange),
        store.db.snapshots.map SnapshotRow.id)) = some (.ready, true, [1, 2]) := by decide +kernel
  have hlisted : (Store.init.run (.inverse []) sampleRead).map (fun store ↦
      store.db.artifacts.map fun artifacts ↦
        artifacts.lineage.map fun row ↦ (row.snapshotId, row.artifactIndex)) =
      some (some [(1, 0), (2, 0)]) := by decide +kernel
  have hsecond : ((Store.init.run (.inverse []) sampleRead).bind fun store ↦
      store.run (.inverse []) sampleBetween).map (fun store ↦
        (store.phase, decide (∀ row ∈ store.db.snapshots, row.InRange),
          store.db.snapshots.map SnapshotRow.id)) = some (.ready, true, [1, 2, 3]) := by
    decide +kernel
  obtain ⟨store, hstore, hvalues⟩ := Option.map_eq_some_iff.mp hfirst
  rw [hstore, Option.bind_some] at hsecond
  rw [hstore, Option.map_some, Option.some.injEq] at hlisted
  obtain ⟨store', hstore', hvalues'⟩ := Option.map_eq_some_iff.mp hsecond
  simp only [Prod.mk.injEq, decide_eq_true_eq] at hvalues hvalues'
  have hserde := Serde.inverse_roundTrip []
  have hreachable : store.Reachable (.inverse []) := ⟨_, hstore⟩
  have hreads : Reads (.inverse []) fun n ↦ if n = 0 then store else store' := by
    refine ⟨hreachable, fun n ↦ ?_, fun n ↦ ?_, fun n ↦ ?_⟩
    · split
      · exact hvalues.1
      · exact hvalues'.1
    · cases n with
      | zero => exact ⟨sampleBetween, hstore'⟩
      | succ n => exact ⟨[], rfl⟩
    · split
      · exact hvalues.2.1
      · exact hvalues'.2.1
  obtain ⟨hhistory, hlatest, hlineage⟩ :=
    pages_complete hserde recordsInverse_roundTrip hreads
  obtain ⟨artifacts, hsome, hindex⟩ := hreachable.artifacts hserde hvalues.1
  refine ⟨_, hreads, hvalues.2.2, hvalues'.2.2, ?_, hhistory _ (by decide +kernel),
    hlatest _ (by decide +kernel), hlineage _ (by decide +kernel)⟩
  rw [if_pos rfl, ← hindex]
  simpa [hsome] using hlisted

end Rvx.Engine
