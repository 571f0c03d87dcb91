import Rvx.Engine.Projections
import Rvx.Engine.StoreRuns

/-!
# Rebuilding the indexes

Every open brings both indexes to the state that one pass over the stored snapshots produces,
whatever the file held before and wherever earlier opens were cut short, and ingestion keeps them
there.
-/

namespace Rvx.Engine

open Core Script Database

variable {serde : Serde}

/-! ## Stages of an index -/

/-- How far an index has been brought up to date. -/
inductive Stage where
  /-- Nothing is known unless the index claims the current version. -/
  | resumable
  | started
  | complete

section Stage

variable {σ : Type}

/-- The index is that of a prefix of the rows. -/
def Started (projection : Projection SnapshotRow σ EngineError) (rows : List SnapshotRow)
    (index : Option σ) : Prop :=
  ∃ current, index = some current ∧ projection.Partial rows current

/-- The index is the one obtained by inserting all rows once, in order. -/
def Complete (projection : Projection SnapshotRow σ EngineError) (rows : List SnapshotRow)
    (index : Option σ) : Prop :=
  ∃ current, index = some current ∧ projection.Built rows current

def Stage.Holds (projection : Projection SnapshotRow σ EngineError) (Outdated : Option σ → Prop)
    (rows : List SnapshotRow) (index : Option σ) : Stage → Prop
  | .resumable => Outdated index ∨ Started projection rows index
  | .started => Started projection rows index
  | .complete => Complete projection rows index

variable {projection : Projection SnapshotRow σ EngineError} {Outdated : Option σ → Prop}
  {rows : List SnapshotRow} {index : Option σ}

theorem Complete.started (h : Complete projection rows index) : Started projection rows index := by
  obtain ⟨current, hindex, hbuilt⟩ := h
  exact ⟨current, hindex, hbuilt.partial⟩

/-- Whatever is known at some stage lets the next open resume. -/
theorem Stage.Holds.resumable {stage : Stage} (h : stage.Holds projection Outdated rows index) :
    Stage.resumable.Holds projection Outdated rows index := by
  cases stage with
  | resumable => exact h
  | started => exact Or.inr h
  | complete => exact Or.inr (Complete.started h)

end Stage

def chartStage : Phase → Stage
  | .closed | .chartVersion _ => .resumable
  | .chartChunks _ _ => .started
  | .headsDelete | .headsInsert | .artifactVersion | .artifactChunks | .ready => .complete

def artifactStage : Phase → Stage
  | .closed | .chartVersion _ | .chartChunks _ _ | .headsDelete | .headsInsert
  | .artifactVersion => .resumable
  | .artifactChunks => .started
  | .ready => .complete

/-- What is known of the chart index. -/
def Store.ChartKnown (serde : Serde) (store : Store) : Prop :=
  (chartStage store.phase).Holds (chartProjection serde) ChartOutdated store.db.snapshots
    store.db.chart

/-- What is known of the artifact index. -/
def Store.ArtifactsKnown (serde : Serde) (store : Store) : Prop :=
  (artifactStage store.phase).Holds (artifactProjection serde) ArtifactsOutdated
    store.db.snapshots store.db.artifacts

/-! ## Rebuild transactions -/

theorem indexRows_chunk {σ : Type}
    {insert : ℕ → String → String → StateSnapshot → Script σ EngineError Unit}
    (projection : Projection SnapshotRow σ EngineError)
    (hinsert : projection.insert = indexRow serde insert) {stopWhenFull : Bool} {n : ℕ}
    {rows : List SnapshotRow} {index index' : σ}
    (h : (indexRows serde insert stopWhenFull 0 0 rows).Returns index n index') :
    projection.Chunk rows n index index' := by
  obtain ⟨taken, hprefix, hcount, hsome, hrun⟩ := indexRows_returns h
  rw [Nat.zero_add] at hcount
  exact ⟨taken, hprefix, hcount, hsome rfl, hinsert ▸ hrun⟩

/-- A rebuild transaction of the chart index leaves the index of a longer prefix, or of all rows. -/
theorem chartChunk_stage {db db' : Database} {n : ℕ} (hdb : Consistent db)
    (hchart : Started (chartProjection serde) db.snapshots db.chart)
    (h : (chartChunk serde).Returns db n db') :
    ∃ chart chart', db.chart = some chart ∧ db' = { db with chart := some chart' } ∧
      (chartProjection serde).Partial db.snapshots chart' ∧
      (n = 0 → (chartProjection serde).Built db.snapshots chart') ∧
      (chartProjection serde).backlog db.snapshots chart' + n =
        (chartProjection serde).backlog db.snapshots chart := by
  obtain ⟨_, hsome, hpartial⟩ := hchart
  obtain ⟨chart, hchart, chart', hrun, rfl⟩ := chartChunk_returns.mp h
  obtain rfl := Option.some.inj (hsome.symm.trans hchart)
  have hnext := hpartial.chunk (by decide) hdb.rows.chartAscending
    (indexRows_chunk (chartProjection serde) rfl hrun)
  exact ⟨_, chart', hchart, rfl, hnext⟩

theorem artifactChunk_stage {db db' : Database} {n : ℕ} (hdb : Consistent db)
    (hart : Started (artifactProjection serde) db.snapshots db.artifacts)
    (h : (artifactChunk serde).Returns db n db') :
    ∃ artifacts artifacts', db.artifacts = some artifacts ∧
      db' = { db with artifacts := some artifacts' } ∧
      (artifactProjection serde).Partial db.snapshots artifacts' ∧
      (n = 0 → (artifactProjection serde).Built db.snapshots artifacts') ∧
      (artifactProjection serde).backlog db.snapshots artifacts' + n =
        (artifactProjection serde).backlog db.snapshots artifacts := by
  obtain ⟨_, hsome, hpartial⟩ := hart
  obtain ⟨artifacts, hart, artifacts', hrun, rfl⟩ := artifactChunk_returns.mp h
  obtain rfl := Option.some.inj (hsome.symm.trans hart)
  have hnext := hpartial.chunk (by decide) hdb.rows.artifactAscending
    (indexRows_chunk (artifactProjection serde) rfl hrun)
  exact ⟨_, artifacts', hart, rfl, hnext⟩

theorem chartChunk_isOk (hserde : serde.RoundTrip) {db : Database} (hdb : Consistent db)
    (hchart : Started (chartProjection serde) db.snapshots db.chart) :
    ∃ n db', (chartChunk serde).Returns db n db' := by
  obtain ⟨chart, hsome, hpartial⟩ := hchart
  obtain ⟨stop, hstop⟩ := (chartProjection_total hserde).pending 64 hpartial
    hdb.rows.chartAscending hdb.rows.written
  obtain ⟨n, chart', hrun⟩ := indexRows_isOk true 0 0 hstop
  exact ⟨n, _, chartChunk_returns.mpr ⟨chart, hsome, chart', hrun, rfl⟩⟩

theorem artifactChunk_isOk (hserde : serde.RoundTrip) {db : Database} (hdb : Consistent db)
    (hart : Started (artifactProjection serde) db.snapshots db.artifacts) :
    ∃ n db', (artifactChunk serde).Returns db n db' := by
  obtain ⟨artifacts, hsome, hpartial⟩ := hart
  obtain ⟨stop, hstop⟩ := (artifactProjection_total hserde).pending 64 hpartial
    hdb.rows.artifactAscending hdb.rows.written
  obtain ⟨n, artifacts', hrun⟩ := indexRows_isOk false 0 0 hstop
  exact ⟨n, _, artifactChunk_returns.mpr ⟨artifacts, hsome, artifacts', hrun, rfl⟩⟩

/-! ## Ingestion -/

theorem StoredOne.chart_complete (hserde : serde.RoundTrip) {source : Source} {session : String}
    {ingested : ℤ} {snapshot : StateSnapshot} {db db' : Database}
    (h : StoredOne serde source session ingested snapshot db db') (hvalid : snapshot.Valid)
    (hchart : Complete (chartProjection serde) db.snapshots db.chart) :
    Complete (chartProjection serde) db'.snapshots db'.chart := by
  obtain ⟨chart, chart', hold, hnew, hrun⟩ := h.chart
  obtain ⟨current, hcurrent, hbuilt⟩ := hchart
  obtain rfl := Option.some.inj (hold.symm.trans hcurrent)
  refine ⟨chart', hnew, ?_⟩
  rw [h.snapshots]
  exact Projection.built_concat.mpr ⟨chart, hbuilt,
    indexRow_returns.mpr ⟨snapshot, hserde snapshot hvalid, hrun⟩⟩

theorem StoredOne.artifacts_complete (hserde : serde.RoundTrip) {source : Source}
    {session : String} {ingested : ℤ} {snapshot : StateSnapshot} {db db' : Database}
    (h : StoredOne serde source session ingested snapshot db db') (hvalid : snapshot.Valid)
    (hart : Complete (artifactProjection serde) db.snapshots db.artifacts) :
    Complete (artifactProjection serde) db'.snapshots db'.artifacts := by
  obtain ⟨artifacts, artifacts', hold, hnew, hrun⟩ := h.artifacts
  obtain ⟨current, hcurrent, hbuilt⟩ := hart
  obtain rfl := Option.some.inj (hold.symm.trans hcurrent)
  refine ⟨artifacts', hnew, ?_⟩
  rw [h.snapshots]
  exact Projection.built_concat.mpr ⟨artifacts, hbuilt,
    indexRow_returns.mpr ⟨snapshot, hserde snapshot hvalid, hrun⟩⟩

/-- What storing one valid snapshot preserves, an accepted page preserves. -/
theorem Ingested.preserves (property : Database → Prop) {source : Source}
    {page : SnapshotHistoryResponse} {n : ℕ} {db db' : Database}
    (h : Ingested serde source page db n db') (hpage : page.WellFormed)
    (hone : ∀ {ingested snapshot db db'}, snapshot.Valid → property db →
      StoredOne serde source page.sourceSessionId ingested snapshot db db' → property db')
    (hadvance : ∀ {committed db db'}, property db → Advanced source committed page db db' →
      property db')
    (hdb : property db) : property db' := by
  cases h with
  | replayed held behind => exact hdb
  | @extended new middle db' part nonempty held ahead sequences stored advanced =>
    have hvalid : ∀ snapshot ∈ new, snapshot.Valid := by
      intro snapshot hmem
      rw [part] at hmem
      exact hpage.valid snapshot (newPart_subset hmem)
    refine hadvance ?_ advanced
    clear part nonempty held ahead sequences advanced
    induction stored with
    | nil db => exact hdb
    | cons ingested first others ih =>
      simp only [List.mem_cons, forall_eq_or_imp] at hvalid
      exact ih (hone hvalid.1 hdb first) hvalid.2

/-- What an accepted page preserves, a batch preserves. -/
theorem ingestSequentially_preserves (property : Database → Prop)
    (hpage : ∀ {source descriptor page n db db'}, Consistent db → property db →
      checkPage source descriptor page = .ok () → Ingested serde source page db n db' →
        property db')
    (pages : List Delivery) {db : Database} (hdb : Consistent db) (h : property db) :
    property (ingestSequentially serde pages db).2 := by
  induction pages generalizing db with
  | nil => exact h
  | cons delivery rest ih =>
    have hmiddle := (atomically_consistent serde delivery hdb).1
    simp only [ingestSequentially]
    refine ih hmiddle ?_
    rcases atomically_cases serde delivery hdb with ⟨reason, hrun⟩ | ⟨n, db', hrun, hcheck, hone⟩
    · rw [hrun]
      exact h
    · rw [hrun]
      exact hpage hdb h hcheck hone

theorem ingestSequentially_complete (hserde : serde.RoundTrip) (pages : List Delivery)
    {db : Database} (hdb : Consistent db)
    (hchart : Complete (chartProjection serde) db.snapshots db.chart)
    (hart : Complete (artifactProjection serde) db.snapshots db.artifacts) :
    Complete (chartProjection serde) (ingestSequentially serde pages db).2.snapshots
        (ingestSequentially serde pages db).2.chart ∧
      Complete (artifactProjection serde) (ingestSequentially serde pages db).2.snapshots
        (ingestSequentially serde pages db).2.artifacts := by
  refine ingestSequentially_preserves (fun db ↦
    Complete (chartProjection serde) db.snapshots db.chart ∧
      Complete (artifactProjection serde) db.snapshots db.artifacts) ?_ pages hdb ⟨hchart, hart⟩
  intro source descriptor page n db db' hdb hold hcheck hingested
  refine hingested.preserves (fun db ↦
    Complete (chartProjection serde) db.snapshots db.chart ∧
      Complete (artifactProjection serde) db.snapshots db.artifacts) (checkPage_ok.mp hcheck).2.1
    ?_ ?_ hold
  · intro ingested snapshot db db' hvalid hold hone
    exact ⟨hone.chart_complete hserde hvalid hold.1, hone.artifacts_complete hserde hvalid hold.2⟩
  · intro committed db db' hold hadvanced
    rw [hadvanced.snapshots, hadvanced.chart, hadvanced.artifacts]
    exact hold

/-! ## Steps -/

/-- What is known of both indexes. -/
structure Store.Indexed (serde : Serde) (store : Store) : Prop where
  consistent : Consistent store.db
  chart : store.ChartKnown serde
  artifacts : store.ArtifactsKnown serde

theorem Store.indexed_init : Store.init.Indexed serde :=
  ⟨consistent_empty, Or.inl (by decide), Or.inl (by decide)⟩

theorem continueOpen_indexed {store store' : Store} (hstore : store.Indexed serde)
    (h : Engine.continueOpen serde store = some store') : store'.Indexed serde := by
  have hconsistent := ((continueOpen_sameRaw h).consistent hstore.consistent).1
  obtain ⟨hdb, hchart, hart⟩ := hstore
  cases openStep_of_continueOpen h with
  | chartCurrent db hasHeads hcurrent =>
    exact ⟨hconsistent, hchart.resolve_left (not_not.mpr hcurrent), hart⟩
  | chartReset => exact ⟨hconsistent, ⟨_, rfl, Projection.partial_empty⟩, hart⟩
  | chartFailed => exact ⟨hconsistent, Or.inr hchart, hart⟩
  | chartDone db db' hasHeads rebuilt hrun =>
    obtain ⟨-, chart', -, rfl, -, hdone, -⟩ := chartChunk_stage hdb hchart hrun
    refine ⟨hconsistent, ?_, ?_⟩
    · unfold Store.ChartKnown
      dsimp only
      split <;> exact ⟨chart', rfl, hdone rfl⟩
    · unfold Store.ArtifactsKnown
      dsimp only
      split <;> exact hart
  | chartMore db db' hasHeads rebuilt n hrun =>
    obtain ⟨-, chart', -, rfl, hpartial, -⟩ := chartChunk_stage hdb hchart hrun
    exact ⟨hconsistent, ⟨chart', rfl, hpartial⟩, hart⟩
  | headsDeleted | headsInserted => exact ⟨hconsistent, hchart, hart⟩
  | artifactCurrent db hcurrent =>
    exact ⟨hconsistent, hchart, hart.resolve_left (not_not.mpr hcurrent)⟩
  | artifactReset => exact ⟨hconsistent, hchart, ⟨_, rfl, Projection.partial_empty⟩⟩
  | artifactFailed => exact ⟨hconsistent, Or.inr (Complete.started hchart), Or.inr hart⟩
  | artifactDone db db' hrun =>
    obtain ⟨-, artifacts', -, rfl, -, hdone, -⟩ := artifactChunk_stage hdb hart hrun
    exact ⟨hconsistent, hchart, ⟨artifacts', rfl, hdone rfl⟩⟩
  | artifactMore db db' n hrun =>
    obtain ⟨-, artifacts', -, rfl, hpartial, -⟩ := artifactChunk_stage hdb hart hrun
    exact ⟨hconsistent, hchart, ⟨artifacts', rfl, hpartial⟩⟩

theorem Store.step_indexed (hserde : serde.RoundTrip) {store store' : Store} {action : Action}
    (hstore : store.Indexed serde) (h : store.step serde action = some store') :
    store'.Indexed serde := by
  have hconsistent := (Store.step_consistent hstore.consistent h).1
  cases action with
  | beginOpen =>
    simp only [Store.step, Option.ite_none_right_eq_some, Option.some.injEq] at h
    obtain ⟨-, rfl⟩ := h
    exact ⟨hconsistent, hstore.chart.resumable, hstore.artifacts.resumable⟩
  | continueOpen => exact continueOpen_indexed hstore h
  | stop =>
    obtain rfl := Option.some.inj h
    exact ⟨hconsistent, hstore.chart.resumable, hstore.artifacts.resumable⟩
  | ingestBatch pages =>
    simp only [Store.step, Option.ite_none_right_eq_some, Option.some.injEq, ingestBatch_eq] at h
    obtain ⟨hready, rfl⟩ := h
    obtain ⟨db, phase⟩ := store
    obtain rfl : phase = .ready := hready
    obtain ⟨hchart, hart⟩ := ingestSequentially_complete hserde pages hstore.consistent hstore.chart
      hstore.artifacts
    exact ⟨hconsistent, hchart, hart⟩
  | useOlder older =>
    simp only [Store.step, Option.ite_none_right_eq_some, Option.some.injEq] at h
    obtain ⟨⟨hclosed, hchart, hart, -⟩, rfl⟩ := h
    obtain ⟨db, phase⟩ := store
    obtain rfl : phase = .closed := hclosed
    refine ⟨hconsistent, ?_, ?_⟩
    · rcases hchart with hsame | houtdated
      · unfold Store.ChartKnown
        dsimp only
        rw [hsame]
        exact hstore.chart
      · exact Or.inl houtdated
    · rcases hart with hsame | houtdated
      · unfold Store.ArtifactsKnown
        dsimp only
        rw [hsame]
        exact hstore.artifacts
      · exact Or.inl houtdated

theorem Store.Reachable.indexed {store : Store} (hstore : store.Reachable serde)
    (hserde : serde.RoundTrip) : store.Indexed serde := by
  obtain ⟨actions, hrun⟩ := hstore
  exact Store.run_induction (Store.Indexed serde) (Store.step_indexed hserde) Store.indexed_init hrun

/-! ## An open completes -/

/-- How many kinds of transaction an open still has before it. -/
def Phase.remaining : Phase → ℕ
  | .closed | .ready => 0
  | .artifactChunks => 1
  | .artifactVersion => 2
  | .headsInsert => 3
  | .headsDelete => 4
  | .chartChunks _ _ => 5
  | .chartVersion _ => 6

/-- The rows the current rebuild loop still has to index. -/
def Store.backlog (serde : Serde) (store : Store) : ℕ :=
  match store.phase with
  | .chartChunks _ _ => store.db.chart.elim 0 ((chartProjection serde).backlog store.db.snapshots)
  | .artifactChunks =>
    store.db.artifacts.elim 0 ((artifactProjection serde).backlog store.db.snapshots)
  | _ => 0

/-- An open goes on: its next transaction succeeds, and comes closer to the end. -/
theorem continueOpen_advances (hserde : serde.RoundTrip) {store : Store}
    (hstore : store.Indexed serde) (hclosed : store.phase ≠ .closed) (hready : store.phase ≠ .ready) :
    ∃ store', Engine.continueOpen serde store = some store' ∧ store'.phase ≠ .closed ∧
      (store'.phase.remaining < store.phase.remaining ∨
        store'.phase.remaining = store.phase.remaining ∧
          store'.backlog serde < store.backlog serde) := by
  obtain ⟨db, phase⟩ := store
  obtain ⟨hdb, hchart, hart⟩ := hstore
  unfold Store.ChartKnown at hchart
  unfold Store.ArtifactsKnown at hart
  cases phase with
  | closed => exact absurd rfl hclosed
  | ready => exact absurd rfl hready
  | chartVersion hasHeads | artifactVersion =>
    unfold Engine.continueOpen
    dsimp only
    split <;> exact ⟨_, rfl, by simp, Or.inl (by simp [Phase.remaining])⟩
  | headsDelete | headsInsert => exact ⟨_, rfl, by simp, Or.inl (by simp [Phase.remaining])⟩
  | chartChunks hasHeads rebuilt =>
    obtain ⟨n, db', hrun⟩ := chartChunk_isOk hserde hdb hchart
    obtain ⟨chart, chart', hsome, rfl, -, -, hbacklog⟩ := chartChunk_stage hdb hchart hrun
    simp only [Engine.continueOpen, atomically_ok.mpr hrun]
    cases n with
    | zero =>
      refine ⟨_, rfl, ?_, Or.inl ?_⟩
      · dsimp only
        split <;> simp
      · dsimp only
        split <;> simp [Phase.remaining]
    | succ n =>
      refine ⟨_, rfl, by simp, Or.inr ⟨rfl, ?_⟩⟩
      have hbefore : db.chart.elim 0 ((chartProjection serde).backlog db.snapshots) =
          (chartProjection serde).backlog db.snapshots chart := by rw [hsome, Option.elim_some]
      dsimp only at hbacklog
      simp only [Store.backlog, Option.elim_some]
      omega
  | artifactChunks =>
    obtain ⟨n, db', hrun⟩ := artifactChunk_isOk hserde hdb hart
    obtain ⟨artifacts, artifacts', hsome, rfl, -, -, hbacklog⟩ := artifactChunk_stage hdb hart hrun
    simp only [Engine.continueOpen, atomically_ok.mpr hrun]
    cases n with
    | zero => exact ⟨_, rfl, by simp, Or.inl (by simp [Phase.remaining])⟩
    | succ n =>
      refine ⟨_, rfl, by simp, Or.inr ⟨rfl, ?_⟩⟩
      have hbefore : db.artifacts.elim 0 ((artifactProjection serde).backlog db.snapshots) =
          (artifactProjection serde).backlog db.snapshots artifacts := by
        rw [hsome, Option.elim_some]
      dsimp only at hbacklog
      simp only [Store.backlog, Option.elim_some]
      omega

/-- An open that is not interrupted completes. -/
theorem open_completes (hserde : serde.RoundTrip) {store : Store} (hstore : store.Indexed serde)
    (hopen : store.phase ≠ .closed) :
    ∃ n store', store.run serde (List.replicate n .continueOpen) = some store' ∧
      store'.phase = .ready ∧ store'.db.snapshots = store.db.snapshots := by
  by_cases hready : store.phase = .ready
  · exact ⟨0, store, rfl, hready, rfl⟩
  · obtain ⟨middle, hstep, hmiddle, hless⟩ := continueOpen_advances hserde hstore hopen hready
    have hindexed := continueOpen_indexed hstore hstep
    obtain ⟨n, store', hrun, hdone, hrows⟩ := open_completes hserde hindexed hmiddle
    refine ⟨n + 1, store', ?_, hdone, hrows.trans (continueOpen_sameRaw hstep).snapshots⟩
    simp only [Store.run, List.replicate_succ, List.foldlM_cons, Store.step, hstep,
      Option.bind_eq_bind, Option.bind_some]
    exact hrun
termination_by (store.phase.remaining, store.backlog serde)
decreasing_by
  rcases hless with hlt | ⟨heq, hlt⟩
  · exact Prod.Lex.left _ _ hlt
  · exact Prod.Lex.right' _ heq.le hlt

/-! ## Agreement of all ways to maintain the indexes -/

/-- The indexes obtained by inserting all stored snapshots once, in ascending order. -/
structure IndexesExact (serde : Serde) (db : Database) : Prop where
  ascending : (db.snapshots.map SnapshotRow.id).Pairwise (· < ·)
  chart : ∃ chart, db.chart = some chart ∧
    (forEach db.snapshots (indexRow serde ChartIndex.insert)).Returns .empty () chart
  artifacts : ∃ artifacts, db.artifacts = some artifacts ∧
    (forEach db.snapshots (indexRow serde (ArtifactIndex.insert serde.artifactMessage))).Returns
      .empty () artifacts

/-- Whenever a store is open its indexes are those of one pass over the stored snapshots, and
reopening it, from whatever state it was stopped in, completes without touching them. -/
theorem Store.indexes_exact (hserde : serde.RoundTrip) {store : Store}
    (hstore : store.Reachable serde) :
    (store.phase = .ready → IndexesExact serde store.db) ∧
      ∃ n store', store.run serde (.stop :: .beginOpen :: List.replicate n .continueOpen) =
          some store' ∧
        store'.phase = .ready ∧ store'.db.snapshots = store.db.snapshots ∧
        IndexesExact serde store'.db := by
  have hexact {store : Store} (hstore : store.Reachable serde) (hready : store.phase = .ready) :
      IndexesExact serde store.db := by
    obtain ⟨hdb, hchart, hart⟩ := hstore.indexed hserde
    unfold Store.ChartKnown at hchart
    unfold Store.ArtifactsKnown at hart
    rw [hready] at hchart hart
    exact ⟨hdb.rows.ids_ascending, hchart, hart⟩
  refine ⟨hexact hstore, ?_⟩
  have hbegin : store.run serde [.stop, .beginOpen] =
      some ⟨createTables store.db, .chartVersion store.db.heads.isSome⟩ := by
    simp [Store.run, Store.step]
  have hopened := (hstore.run hbegin).indexed hserde
  obtain ⟨n, store', hrun, hready, hrows⟩ := open_completes hserde hopened (by simp)
  have hall : store.run serde (.stop :: .beginOpen :: List.replicate n .continueOpen) =
      some store' := by
    simpa [Store.run, Store.step] using hrun
  exact ⟨n, store', hall, hready, hrows, hexact (hstore.run hall) hready⟩

/-- An upgraded file whose first open is cut short after it reset the chart index. -/
def sampleUpgrade : List Action :=
  sampleBefore ++ [.stop, .useOlder ⟨none, none, none⟩, .beginOpen, .continueOpen, .stop,
    .beginOpen] ++ List.replicate 6 .continueOpen

theorem Store.indexes_exact_sample :
    ∃ store, Store.init.run (.inverse [sampleSnapshot 2 sampleState]) sampleUpgrade = some store ∧
      store.phase = .ready ∧ IndexesExact (.inverse [sampleSnapshot 2 sampleState]) store.db := by
  have hphase : (Store.init.run (.inverse [sampleSnapshot 2 sampleState]) sampleUpgrade).map
      Store.phase = some .ready := by decide +kernel
  obtain ⟨store, hstore, hready⟩ := Option.map_eq_some_iff.mp hphase
  exact ⟨store, hstore, hready,
    (Store.indexes_exact (Serde.inverse_roundTrip _) ⟨sampleUpgrade, hstore⟩).1 hready⟩

end Rvx.Engine
