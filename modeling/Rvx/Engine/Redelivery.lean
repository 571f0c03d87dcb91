import Rvx.Engine.Projections
import Rvx.Engine.StoreRuns

/-!
# Pages that are delivered again

A page that was accepted once finds all its snapshots stored and the cursor at or beyond its end,
and both stay so forever.  Delivering it again is therefore accepted without any effect, while a
page that disagrees with a stored snapshot is rejected.
-/

namespace Rvx.Engine

open Core Check Script Database

variable {serde : Serde} {source : Source}

/-! ## Settled pages -/

/-- Everything a page has to say is already known. -/
structure Settled (serde : Serde) (source : Source) (page : SnapshotHistoryResponse)
    (db : Database) : Prop where
  held : ∀ snapshot ∈ page.snapshots,
    snapshot.sequence < db.cursor source.id page.sourceSessionId ∧
      Holds serde source page.sourceSessionId db snapshot
  behind : page.nextSequence ≤ db.cursor source.id page.sourceSessionId

theorem Settled.grow {page : SnapshotHistoryResponse} {db db' : Database}
    (h : Settled serde source page db) (hgrows : Grows db db') :
    Settled serde source page db' := by
  refine ⟨fun snapshot hmem ↦ ?_, h.behind.trans (hgrows.cursor _ _)⟩
  obtain ⟨hlt, row, hrow, hheld⟩ := h.held snapshot hmem
  exact ⟨hlt.trans_le (hgrows.cursor _ _), row, hgrows.stored hrow, hheld⟩

/-- The rows of the new part are in the table. -/
theorem StoredAll.mem_snapshots {session : String} {new : List StateSnapshot} {db db' : Database}
    (h : StoredAll serde source session new db db') {snapshot : StateSnapshot}
    (hmem : snapshot ∈ new) :
    ∃ ingested id, rowOf source session ingested snapshot id ∈ db'.snapshots := by
  induction h with
  | nil db => simp at hmem
  | @cons first rest before middle after ingested one others ih =>
    cases List.mem_cons.mp hmem with
    | inl heq =>
      refine ⟨ingested, before.snapshotSeq + 1, others.isPrefix.subset ?_⟩
      rw [one.snapshots, heq]
      exact List.mem_append_right _ (List.mem_singleton_self _)
    | inr hrest => exact ih hrest

/-- An accepted page is settled afterwards. -/
theorem Ingested.settled {page : SnapshotHistoryResponse} {n : ℕ} {db db' : Database}
    (h : Ingested serde source page db n db') (hserde : serde.RoundTrip) (hpage : page.WellFormed)
    (hdb : Consistent db) : Settled serde source page db' := by
  obtain ⟨hdb', hgrows⟩ := h.consistent hpage hdb
  cases h with
  | replayed held behind => exact ⟨held, behind⟩
  | @extended new middle db' part nonempty held ahead sequences stored advanced =>
    have hcursor : page.nextSequence ≤ db'.cursor source.id page.sourceSessionId := by
      rw [(extended_views stored advanced).1]
      exact le_max_right _ _
    refine ⟨fun snapshot hmem ↦ ?_, hcursor⟩
    by_cases hlt : snapshot.sequence < db.cursor source.id page.sourceSessionId
    · obtain ⟨row, hrow, hheld⟩ := held snapshot hmem hlt
      exact ⟨hlt.trans_le (hgrows.cursor _ _), row, hgrows.stored hrow, hheld⟩
    · have hnew : snapshot ∈ new := by
        rw [part]
        exact List.mem_filter.mpr ⟨hmem, by simpa using hlt⟩
      obtain ⟨ingested, id, hrow⟩ := stored.mem_snapshots hnew
      rw [← advanced.snapshots] at hrow
      have hstored := hdb'.stored_of_mem hrow
      have hbelow := (hdb'.cover source.id page.sourceSessionId).lt_of_stored
        (mem_storedSequences.mpr ⟨_, hrow, rfl, rfl, rfl⟩)
      exact ⟨hbelow, _, hstored, rfl, hserde snapshot (hpage.valid snapshot hmem)⟩

/-! ## Delivering a settled page -/

theorem ingestSnapshots_held {now : ℕ → ℤ} {session : String} {committed accepted index : ℕ}
    {snapshots : List StateSnapshot} {db : Database}
    (h : ∀ snapshot ∈ snapshots, Holds serde source session db snapshot) :
    (ingestSnapshots serde now source session committed accepted index snapshots).Returns db
      accepted db := by
  induction snapshots generalizing index with
  | nil => simp [ingestSnapshots]
  | cons snapshot rest ih =>
    simp only [List.mem_cons, forall_eq_or_imp] at h
    obtain ⟨⟨row, hrow, hrun, hdecode⟩, hrest⟩ := h
    simp only [ingestSnapshots, returns_bind, returns_read]
    refine ⟨_, _, ⟨rfl, rfl⟩, ?_⟩
    simpa [hrow, hrun, hdecode] using ih hrest

theorem Settled.ingestPage {now : ℕ → ℤ} {descriptor : SnapshotDescriptor}
    {page : SnapshotHistoryResponse} {db : Database} (h : Settled serde source page db)
    (hcheck : checkPage source descriptor page = .ok ()) :
    (ingestPage serde now source descriptor page).Returns db 0 db := by
  have hpage := (checkPage_ok.mp hcheck).2.1
  have hnone : newPart (db.cursor source.id page.sourceSessionId) page.snapshots = [] := by
    rw [newPart, List.filter_eq_nil_iff]
    intro snapshot hmem
    simpa using (h.held snapshot hmem).1
  have hcontinuity := (checkContinuity_ok hpage).mpr (Or.inl ⟨hnone, h.behind⟩)
  have hloop : (ingestSnapshots serde now source page.sourceSessionId
      (db.cursor source.id page.sourceSessionId) 0 0 page.snapshots).Returns db 0 db :=
    ingestSnapshots_held fun snapshot hmem ↦ (h.held snapshot hmem).2
  simp only [Engine.ingestPage, returns_bind, returns_check, returns_read]
  exact ⟨(), db, ⟨hcheck, rfl⟩, _, db, ⟨rfl, rfl⟩, (), db, ⟨hcontinuity, rfl⟩, 0, db, hloop,
    by simp⟩

/-- A page that disagrees with a stored snapshot is rejected. -/
theorem conflict_rejected (hserde : serde.RoundTrip) {delivery : Delivery} {db : Database}
    (hdb : Consistent db) {snapshot kept : StateSnapshot} {row : SnapshotRow}
    (hmem : snapshot ∈ delivery.page.snapshots)
    (hrow : db.stored delivery.source.id delivery.page.sourceSessionId snapshot.sequence = some row)
    (hkept : row.snapshotJson = kept.encode) (hne : kept ≠ snapshot) :
    ∃ reason, (delivery.ingest serde).atomically db = (.error reason, db) := by
  rcases atomically_cases serde delivery hdb with hrejected | ⟨n, db', -, -, hingested⟩
  · exact hrejected
  · exfalso
    have hlt := (hdb.cover delivery.source.id delivery.page.sourceSessionId).lt_of_stored
      (mem_storedSequences_iff_stored.mpr ⟨row, hrow⟩)
    have hholds : Holds serde delivery.source delivery.page.sourceSessionId db snapshot := by
      cases hingested with
      | replayed held behind => exact (held snapshot hmem).2
      | extended part nonempty held ahead sequences stored advanced => exact held snapshot hmem hlt
    obtain ⟨row', hrow', -, hdecode⟩ := hholds
    obtain rfl := Option.some.inj (hrow.symm.trans hrow')
    obtain ⟨written, hwritten⟩ := hdb.rows.written row (stored_some hrow).1
    have hsame : kept = written := StateSnapshot.encode_injective (hkept.symm.trans hwritten.json)
    rw [hwritten.decode hserde, Option.some.injEq] at hdecode
    exact hne (hsame.trans hdecode)

/-! ## At-least-once delivery -/

/-- The page a batch accepts at some position is settled at the end of the batch. -/
theorem settled_of_accepted (hserde : serde.RoundTrip) {db : Database} (hdb : Consistent db)
    {first : List Delivery} (rest : List Delivery) {delivery : Delivery} {n : ℕ}
    (haccepted : (delivery.ingest serde (ingestSequentially serde first db).2).1 = .ok n) :
    checkPage delivery.source delivery.descriptor delivery.page = .ok () ∧
      Settled serde delivery.source delivery.page
        (ingestSequentially serde (first ++ delivery :: rest) db).2 := by
  obtain ⟨hmiddle, -⟩ := ingestSequentially_consistent serde first hdb
  generalize hrun : delivery.ingest serde (ingestSequentially serde first db).2 = outcome
  obtain ⟨result, next⟩ := outcome
  rw [hrun] at haccepted
  obtain rfl : result = .ok n := haccepted
  obtain ⟨hcheck, hingested⟩ := ingestPage_returns
    (hmiddle.cursorBounds delivery.source delivery.page.sourceSessionId) hrun
  have hpage := (checkPage_ok.mp hcheck).2.1
  have hnext := (hingested.consistent hpage hmiddle).1
  have hsettled := hingested.settled hserde hpage hmiddle
  have hafter := (ingestSequentially_consistent serde rest hnext).2
  refine ⟨hcheck, ?_⟩
  rw [ingestSequentially_append]
  simp only [ingestSequentially, atomically_ok.mpr hrun]
  exact hsettled.grow hafter

/-- Delivery is safe at least once: a page that was accepted at any earlier time is accepted again
with nothing new and no effect, and a page that disagrees with a stored snapshot in any field is
rejected without effect. -/
theorem Store.redelivery_safe (hserde : serde.RoundTrip) {store : Store}
    (hstore : store.Reachable serde) :
    (∀ first delivery rest n after store',
      (delivery.ingest serde (ingestSequentially serde first store.db).2).1 = .ok n →
      store.run serde (.ingestBatch (first ++ delivery :: rest) :: after) = some store' →
      ∀ now, ({ delivery with now }.ingest serde) store'.db = (.ok 0, store'.db)) ∧
      ∀ (delivery : Delivery) (snapshot kept : StateSnapshot) (row : SnapshotRow),
        snapshot ∈ delivery.page.snapshots →
        store.db.stored delivery.source.id delivery.page.sourceSessionId snapshot.sequence =
          some row →
        row.snapshotJson = kept.encode → kept ≠ snapshot →
        ∃ reason, (delivery.ingest serde).atomically store.db = (.error reason, store.db) := by
  constructor
  · intro first delivery rest n after store' haccepted hrun now
    simp only [Store.run, List.foldlM_cons, Option.bind_eq_bind, Option.bind_eq_some_iff] at hrun
    obtain ⟨middle, hbatch, hafter⟩ := hrun
    have hmiddle := Store.step_consistent hstore.consistent hbatch
    have hgrows := (Store.run_consistent hmiddle.1 hafter).2
    obtain ⟨hcheck, hsettled⟩ := settled_of_accepted hserde hstore.consistent rest
      haccepted
    simp only [Store.step, Option.ite_none_right_eq_some, Option.some.injEq, ingestBatch_eq]
      at hbatch
    obtain ⟨-, rfl⟩ := hbatch
    exact (hsettled.grow hgrows).ingestPage hcheck
  · intro delivery snapshot kept row hmem hrow hkept hne
    exact conflict_rejected hserde hstore.consistent hmem hrow hkept hne

/-- A page delivered twice, and a page that reports another time for the same sequence. -/
theorem Store.redelivery_safe_sample :
    ∃ store store' : Store,
      store.run (.inverse []) [.ingestBatch [sampleDelivery 0 none [sampleSnapshot 0 sampleState]]] =
        some store' ∧
      (sampleDelivery 0 none [sampleSnapshot 0 sampleState]).ingest (.inverse []) store'.db =
        (.ok 0, store'.db) ∧
      ∃ reason, ((sampleDelivery 0 none
          [{ sampleSnapshot 0 sampleState with observedAtNs := 101 }]).ingest
        (.inverse [])).atomically store'.db = (.error reason, store'.db) := by
  have hopened : ((Store.init.run (.inverse []) openNew).map fun store ↦
      ((sampleDelivery 0 none [sampleSnapshot 0 sampleState]).ingest (.inverse []) store.db).1) =
        some (.ok 1) := by decide +kernel
  have hstored : (((Store.init.run (.inverse []) openNew).bind fun store ↦ store.run (.inverse [])
      [.ingestBatch [sampleDelivery 0 none [sampleSnapshot 0 sampleState]]]).bind fun store ↦
        (store.db.stored "trainer" "session-1" 0).map SnapshotRow.snapshotJson) =
      some (sampleSnapshot 0 sampleState).encode := by decide +kernel
  obtain ⟨store, hstore, haccepted⟩ := Option.map_eq_some_iff.mp hopened
  rw [hstore, Option.bind_some] at hstored
  obtain ⟨store', hrun, hrow⟩ := Option.bind_eq_some_iff.mp hstored
  obtain ⟨row, hrow, hkept⟩ := Option.map_eq_some_iff.mp hrow
  have hreachable : store.Reachable (.inverse []) := ⟨openNew, hstore⟩
  refine ⟨store, store', hrun, ?_, ?_⟩
  · exact (Store.redelivery_safe (Serde.inverse_roundTrip []) hreachable).1 []
      (sampleDelivery 0 none [sampleSnapshot 0 sampleState]) [] 1 [] store' haccepted hrun _
  · exact (Store.redelivery_safe (Serde.inverse_roundTrip []) (hreachable.run hrun)).2
      (sampleDelivery 0 none [{ sampleSnapshot 0 sampleState with observedAtNs := 101 }]) _
      (sampleSnapshot 0 sampleState) row (List.mem_singleton_self _) hrow hkept (by decide)

end Rvx.Engine
