import Rvx.Engine.Rebuild
import Rvx.Engine.SessionView

/-!
# Pages that move the cursor

An open store accepts every well-formed page that continues the cursor: the snapshots are new, the
indexes have room for their IDs, and the heads table exists.
-/

namespace Rvx.Engine

open Core Check Script Database

variable {serde : Serde} {source : Source}

/-! ## The tables of an open store -/

/-- An open writes the heads only where it repairs them. -/
theorem continueOpen_heads {store store' : Store}
    (h : Engine.continueOpen serde store = some store') :
    store'.db.heads = store.db.heads ∨ store'.db.heads = (deleteHeads store.db).heads ∨
      store'.db.heads = (insertHeads store.db).heads := by
  cases openStep_of_continueOpen h with
  | chartCurrent | chartReset | chartFailed | artifactCurrent | artifactReset | artifactFailed =>
    exact Or.inl rfl
  | chartDone _ _ _ _ hrun | chartMore _ _ _ _ _ hrun =>
    exact Or.inl (chartChunk_sameRaw hrun).2
  | headsDeleted => exact Or.inr (Or.inl rfl)
  | headsInserted => exact Or.inr (Or.inr rfl)
  | artifactDone _ _ hrun | artifactMore _ _ _ hrun =>
    exact Or.inl (artifactChunk_sameRaw hrun).2

theorem StoredOne.heads_isSome {session : String} {ingested : ℤ} {snapshot : StateSnapshot}
    {db db' : Database} (h : StoredOne serde source session ingested snapshot db db')
    (hheads : db.heads.isSome = true) : db'.heads.isSome = true := by
  rcases h.heads with ⟨-, heq⟩ | ⟨-, heads, -, heq⟩
  · rw [heq]
    exact hheads
  · rw [heq]
    rfl

/-- The heads table exists while a store is being opened and while it is open. -/
theorem Store.Reachable.heads_isSome {store : Store} (hstore : store.Reachable serde)
    (hopen : store.phase ≠ .closed) : store.db.heads.isSome = true := by
  obtain ⟨actions, hrun⟩ := hstore
  refine (Store.run_induction (fun store ↦ Consistent store.db ∧
    (store.phase ≠ .closed → store.db.heads.isSome = true)) ?_
    ⟨consistent_empty, fun hne ↦ absurd rfl hne⟩ hrun).2 hopen
  rintro store action store' ⟨hdb, hheads⟩ hstep
  refine ⟨(Store.step_consistent hdb hstep).1, fun hopen ↦ ?_⟩
  cases action with
  | beginOpen =>
    simp only [Store.step, Option.ite_none_right_eq_some, Option.some.injEq] at hstep
    obtain ⟨-, rfl⟩ := hstep
    rfl
  | continueOpen =>
    have hpresent : store.db.heads.isSome = true := by
      apply hheads
      intro hclosed
      simp [Store.step, Engine.continueOpen, hclosed] at hstep
    rcases continueOpen_heads hstep with heq | heq | heq
    all_goals
      rw [heq]
      simpa [deleteHeads, insertHeads] using hpresent
  | stop =>
    obtain rfl := Option.some.inj hstep
    exact absurd rfl hopen
  | ingestBatch pages =>
    simp only [Store.step, Option.ite_none_right_eq_some, Option.some.injEq, ingestBatch_eq] at hstep
    obtain ⟨-, rfl⟩ := hstep
    refine ingestSequentially_preserves (fun db ↦ db.heads.isSome = true) ?_ pages hdb (hheads hopen)
    intro source descriptor page n db db' hconsistent hold hcheck hingested
    refine hingested.preserves (fun db ↦ db.heads.isSome = true) (checkPage_ok.mp hcheck).2.1
      ?_ ?_ hold
    · exact fun _ hold hone ↦ hone.heads_isSome hold
    · exact fun hold hadvanced ↦ hadvanced.heads ▸ hold
  | useOlder older =>
    simp only [Store.step, Option.ite_none_right_eq_some, Option.some.injEq] at hstep
    obtain ⟨⟨hclosed, -⟩, rfl⟩ := hstep
    exact absurd hclosed hopen

/-- The index of all rows has room for every later ID. -/
theorem Complete.fresh {σ : Type} {projection : Projection SnapshotRow σ EngineError}
    {fresh : ℕ → σ → Prop} {rows : List SnapshotRow} {index : Option σ}
    (h : Complete projection rows index) (htotal : projection.Total Written fresh)
    (hrows : projection.Ascending rows) (hwritten : ∀ row ∈ rows, Written row) :
    ∃ current, index = some current ∧
      ∀ id, (∀ row ∈ rows, projection.id row < id) → fresh id current := by
  obtain ⟨current, hindex, hbuilt⟩ := h
  obtain ⟨other, hother, hfresh⟩ := htotal.built hrows hwritten
  obtain rfl := hbuilt.unique hother
  exact ⟨current, hindex, hfresh⟩

/-- What an open store offers to ingestion. -/
structure Accepting (serde : Serde) (db : Database) : Prop where
  rows : RowsValid db
  chart : Complete (chartProjection serde) db.snapshots db.chart
  artifacts : Complete (artifactProjection serde) db.snapshots db.artifacts
  heads : db.heads.isSome = true

theorem Store.Reachable.accepting {store : Store} (hstore : store.Reachable serde)
    (hserde : serde.RoundTrip) (hready : store.phase = .ready) : Accepting serde store.db := by
  obtain ⟨hdb, hchart, hart⟩ := hstore.indexed hserde
  unfold Store.ChartKnown at hchart
  unfold Store.ArtifactsKnown at hart
  rw [hready] at hchart hart
  exact ⟨hdb.rows, hchart, hart, hstore.heads_isSome (by rw [hready]; decide)⟩

/-! ## Storing and ingesting -/

/-- A new valid snapshot can be stored. -/
theorem Accepting.store {db : Database} (h : Accepting serde db) (hserde : serde.RoundTrip)
    {session : String} (ingested : ℤ) {snapshot : StateSnapshot} (hvalid : snapshot.Valid)
    (hsession : snapshot.sourceSessionId = session)
    (hfresh : db.stored source.id session snapshot.sequence = none) :
    ∃ db', StoredOne serde source session ingested snapshot db db' ∧ Accepting serde db' := by
  have hid : ∀ row ∈ db.snapshots, row.id < db.snapshotSeq + 1 :=
    fun row hrow ↦ Nat.lt_succ_of_le (h.rows.ids_le row hrow)
  obtain ⟨chart, hchart, hroom⟩ :=
    h.chart.fresh (chartProjection_total hserde) h.rows.chartAscending h.rows.written
  obtain ⟨artifacts, hart, hroom'⟩ :=
    h.artifacts.fresh (artifactProjection_total hserde) h.rows.artifactAscending h.rows.written
  obtain ⟨heads, hheads⟩ := Option.isSome_iff_exists.mp h.heads
  have hinsert : (ChartIndex.insert (db.snapshotSeq + 1) source.runId source.id snapshot).Returns
      chart () (chart.add (db.snapshotSeq + 1) source.runId source.id snapshot) :=
    ChartIndex.insert_returns hvalid (hroom _ hid)
  obtain ⟨artifacts', hinsert', -⟩ := ArtifactIndex.insert_returns serde.artifactMessage
    source.runId source.id snapshot (hroom' _ hid)
  have hone : ∃ db', StoredOne serde source session ingested snapshot db db' := by
    refine ⟨{ db with
      snapshots := db.snapshots ++ [rowOf source session ingested snapshot (db.snapshotSeq + 1)]
      snapshotSeq := db.snapshotSeq + 1
      chart := some (chart.add (db.snapshotSeq + 1) source.runId source.id snapshot)
      artifacts := some artifacts'
      heads := if snapshot.isEvent then db.heads
        else some (upsertHead ⟨source.runId, source.id, db.snapshotSeq + 1⟩ heads) },
      hfresh, rfl, rfl, rfl, rfl, ⟨chart, _, hchart, rfl, hinsert⟩,
      ⟨artifacts, artifacts', hart, rfl, hinsert'⟩, ?_⟩
    rw [hvalid.isTrackerEvent]
    cases snapshot.isEvent with
    | true => exact Or.inl ⟨rfl, rfl⟩
    | false => exact Or.inr ⟨rfl, heads, hheads, rfl⟩
  obtain ⟨db', hone⟩ := hone
  exact ⟨db', hone, hone.rowsValid h.rows hvalid hsession, hone.chart_complete hserde hvalid h.chart,
    hone.artifacts_complete hserde hvalid h.artifacts, hone.heads_isSome h.heads⟩

/-- The duplicate and cursor checks of the loop over a page: a stored snapshot must belong to the
same run and be the same, and a snapshot that is not stored must not lie behind the cursor. -/
def DuplicatesAgree (serde : Serde) (source : Source) (page : SnapshotHistoryResponse)
    (db : Database) : Prop :=
  ∀ snapshot ∈ page.snapshots,
    match db.stored source.id page.sourceSessionId snapshot.sequence with
    | some row => row.runId = source.runId ∧
        ∀ previous, serde.snapshot row.snapshotJson = some previous → previous = snapshot
    | none => db.cursor source.id page.sourceSessionId ≤ snapshot.sequence

/-- What remains of a page after its checks cannot fail. -/
theorem Accepting.ingestPage_isOk {db : Database} (h : Accepting serde db)
    (hserde : serde.RoundTrip) (hdb : Consistent db) {descriptor : SnapshotDescriptor}
    {page : SnapshotHistoryResponse} (now : ℕ → ℤ)
    (hcheck : checkPage source descriptor page = .ok ())
    (hcontinuity : checkContinuity (db.cursor source.id page.sourceSessionId) page = .ok ())
    (hduplicates : DuplicatesAgree serde source page db) :
    ∃ n db', (ingestPage serde now source descriptor page).Returns db n db' := by
  have hpage := (checkPage_ok.mp hcheck).2.1
  have hnodup : (page.snapshots.map StateSnapshot.sequence).Nodup := by
    rw [hpage.consecutive]
    exact List.nodup_range'
  have hheld : ∀ snapshot ∈ page.snapshots,
      snapshot.sequence < db.cursor source.id page.sourceSessionId →
        Holds serde source page.sourceSessionId db snapshot := by
    intro snapshot hmem hlt
    have hagree := hduplicates snapshot hmem
    cases hstored : db.stored source.id page.sourceSessionId snapshot.sequence with
    | none =>
      rw [hstored] at hagree
      exact absurd hagree (Nat.not_le.mpr hlt)
    | some row =>
      rw [hstored] at hagree
      obtain ⟨written, hwritten⟩ := hdb.rows.written row (stored_some hstored).1
      have hdecode := hwritten.decode hserde
      obtain rfl := hagree.2 written hdecode
      exact ⟨row, hstored, hagree.1, hdecode⟩
  obtain ⟨n, middle, hloop⟩ : ∃ n middle, (ingestSnapshots serde now source page.sourceSessionId
      (db.cursor source.id page.sourceSessionId) 0 0 page.snapshots).Returns db n middle :=
    ingestSnapshots_of_stored 0 0 (Accepting serde) h hnodup hheld
      (fun snapshot _ hge ↦ hdb.cursorBounds source page.sourceSessionId snapshot.sequence hge)
      (fun snapshot hmem ingested middle hmiddle hnone ↦ hmiddle.store hserde ingested
        (hpage.valid snapshot hmem) (hpage.session snapshot hmem) hnone)
  by_cases hzero : n = 0
  · refine ⟨0, middle, ?_⟩
    simp only [ingestPage, returns_bind, returns_check, returns_read]
    refine ⟨(), db, ⟨hcheck, rfl⟩, _, db, ⟨rfl, rfl⟩, (), db, ⟨hcontinuity, rfl⟩, n, middle, hloop,
      ?_⟩
    simp [hzero]
  · obtain ⟨db', hadvance⟩ : ∃ db', (advance now source
        (db.cursor source.id page.sourceSessionId) page).Returns middle () db' := advance_isOk ..
    refine ⟨n, db', ?_⟩
    simp only [ingestPage, returns_bind, returns_check, returns_read]
    refine ⟨(), db, ⟨hcheck, rfl⟩, _, db, ⟨rfl, rfl⟩, (), db, ⟨hcontinuity, rfl⟩, n, middle, hloop,
      ?_⟩
    simp only [hzero, if_false, returns_bind, returns_pure]
    exact ⟨(), db', hadvance, trivial, rfl⟩

/-- The page starts at the cursor, or at its oldest sequence if that lies ahead, and says so. -/
structure Continues (source : Source) (page : SnapshotHistoryResponse) (db : Database) : Prop where
  nonempty : page.snapshots ≠ []
  next : page.nextSequence =
    max (db.cursor source.id page.sourceSessionId) page.oldestSequence + page.snapshots.length
  declared : db.cursor source.id page.sourceSessionId < page.oldestSequence →
    page.droppedBefore = some page.oldestSequence

/-- A page that continues the cursor is accepted and moves the cursor to its end. -/
theorem Continues.accepted {page : SnapshotHistoryResponse} {db : Database}
    (h : Continues source page db) (hserde : serde.RoundTrip) (hdb : Consistent db)
    (hopen : Accepting serde db) {descriptor : SnapshotDescriptor} (now : ℕ → ℤ)
    (hcheck : checkPage source descriptor page = .ok ()) :
    ∃ n db', (ingestPage serde now source descriptor page).Returns db n db' ∧ 0 < n ∧
      db'.cursor source.id page.sourceSessionId = page.nextSequence := by
  have hpage := (checkPage_ok.mp hcheck).2.1
  have hfirst : page.nextSequence - page.snapshots.length =
      max (db.cursor source.id page.sourceSessionId) page.oldestSequence := by
    rw [h.next, Nat.add_sub_cancel]
  have hsequences := hpage.consecutive
  rw [hfirst] at hsequences
  have hahead : ∀ snapshot ∈ page.snapshots,
      db.cursor source.id page.sourceSessionId ≤ snapshot.sequence := by
    intro snapshot hmem
    have hin : snapshot.sequence ∈ page.snapshots.map StateSnapshot.sequence :=
      List.mem_map_of_mem hmem
    rw [hsequences] at hin
    exact (le_max_left _ _).trans (List.mem_range'_1.mp hin).1
  have hnew : newPart (db.cursor source.id page.sourceSessionId) page.snapshots =
      page.snapshots := by
    rw [newPart, List.filter_eq_self]
    exact fun snapshot hmem ↦ decide_eq_true (hahead snapshot hmem)
  have hlength : 0 < page.snapshots.length := List.length_pos_iff.mpr h.nonempty
  have hcontinuity := (checkContinuity_ok hpage).mpr (Or.inr ⟨by rw [hnew]; exact h.nonempty,
    by rw [h.next]; omega, by rw [hnew, hsequences, h.next, Nat.add_sub_cancel_left], h.declared⟩)
  have hduplicates : DuplicatesAgree serde source page db := by
    intro snapshot hmem
    rw [hdb.cursorBounds source page.sourceSessionId snapshot.sequence (hahead snapshot hmem)]
    exact hahead snapshot hmem
  obtain ⟨n, db', hrun⟩ := hopen.ingestPage_isOk hserde hdb now hcheck hcontinuity hduplicates
  have hingested := (ingestPage_returns (hdb.cursorBounds source page.sourceSessionId) hrun).2
  refine ⟨n, db', hrun, ?_, ?_⟩
  · cases hingested with
    | replayed held behind =>
      have hnext := h.next
      omega
    | extended part nonempty => exact List.length_pos_iff.mpr nonempty
  · rw [hingested.viewExtended.cursor, h.next]
    omega

/-! ## No page is rejected by the indexes -/

/-- An open store has room for the next snapshot in both indexes, whatever a valid snapshot holds,
and accepts every page that passes the checks made before anything is inserted. -/
theorem Store.no_poison_page (hserde : serde.RoundTrip) {store : Store}
    (hstore : store.Reachable serde) (hready : store.phase = .ready) :
    (∀ snapshot : StateSnapshot, snapshot.Valid → ∀ run source,
      (∃ event, isTrackerEvent snapshot.state.value = .ok event) ∧
        (∃ db', (onChart (ChartIndex.insert (store.db.snapshotSeq + 1) run source
          snapshot)).Returns store.db () db') ∧
        ∃ db', (onArtifacts (ArtifactIndex.insert serde.artifactMessage (store.db.snapshotSeq + 1)
          run source snapshot)).Returns store.db () db') ∧
      ∀ delivery : Delivery,
        checkPage delivery.source delivery.descriptor delivery.page = .ok () →
        checkContinuity (store.db.cursor delivery.source.id delivery.page.sourceSessionId)
          delivery.page = .ok () →
        DuplicatesAgree serde delivery.source delivery.page store.db →
        ∃ n db', (delivery.ingest serde).Returns store.db n db' := by
  have hopen := hstore.accepting hserde hready
  have hid : ∀ row ∈ store.db.snapshots, row.id < store.db.snapshotSeq + 1 :=
    fun row hrow ↦ Nat.lt_succ_of_le (hopen.rows.ids_le row hrow)
  refine ⟨fun snapshot hvalid run source ↦ ⟨⟨_, hvalid.isTrackerEvent⟩, ?_, ?_⟩,
    fun delivery hcheck hcontinuity hduplicates ↦ hopen.ingestPage_isOk hserde hstore.consistent
      delivery.now hcheck hcontinuity hduplicates⟩
  · obtain ⟨chart, hchart, hroom⟩ :=
      hopen.chart.fresh (chartProjection_total hserde) hopen.rows.chartAscending hopen.rows.written
    exact ⟨_, returns_onSome.mpr ⟨chart, hchart, _, ChartIndex.insert_returns hvalid (hroom _ hid),
      rfl⟩⟩
  · obtain ⟨artifacts, hart, hroom⟩ := hopen.artifacts.fresh (artifactProjection_total hserde)
      hopen.rows.artifactAscending hopen.rows.written
    obtain ⟨artifacts', hinsert, -⟩ := ArtifactIndex.insert_returns serde.artifactMessage run source
      snapshot (hroom _ hid)
    exact ⟨_, returns_onSome.mpr ⟨artifacts, hart, artifacts', hinsert, rfl⟩⟩

/-- The next page of the sample session. -/
def sampleNext : Delivery := sampleDelivery 3 none [sampleSnapshot 3 sampleState]

theorem Store.no_poison_page_sample :
    ∃ (store : Store) (n : ℕ) (db' : Database), store.Reachable (.inverse []) ∧
      (sampleNext.ingest (.inverse [])).Returns store.db n db' := by
  have hrun : ((Store.init.run (.inverse []) sampleBefore).map fun store ↦
      (store.phase, store.db.cursor "trainer" "session-1",
        store.db.stored "trainer" "session-1" 3)) = some (.ready, 3, none) := by decide +kernel
  obtain ⟨store, hstore, hview⟩ := Option.map_eq_some_iff.mp hrun
  simp only [Prod.mk.injEq] at hview
  obtain ⟨hready, hcursor, hstored⟩ := hview
  have hreachable : store.Reachable (.inverse []) := ⟨sampleBefore, hstore⟩
  have haccepts := (Store.no_poison_page (Serde.inverse_roundTrip []) hreachable hready).2
  obtain ⟨n, db', hreturns⟩ := haccepts sampleNext (by decide +kernel)
    (by
      rw [show store.db.cursor sampleNext.source.id sampleNext.page.sourceSessionId = 3 from hcursor]
      decide +kernel)
    (by
      intro snapshot hmem
      obtain rfl : snapshot = sampleSnapshot 3 sampleState := List.mem_singleton.mp hmem
      rw [show store.db.stored sampleNext.source.id sampleNext.page.sourceSessionId
        (sampleSnapshot 3 sampleState).sequence = none from hstored]
      exact hcursor.le)
  exact ⟨store, n, db', hreachable, hreturns⟩

end Rvx.Engine
