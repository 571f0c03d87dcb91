import Rvx.Engine.Heads

/-!
# Heads over the life of a store

The repair of the heads is decided in one transaction and done in another.  If no open is stopped
while its repair is still pending in a file that already looks current, the heads of an open store
are exact, so the latest snapshots it serves are the newest observations.  One such stop is enough
to leave an event at the head for good.
-/

namespace Rvx.Engine

open Core Script Database

variable {serde : Serde}

/-! ## Pending repairs -/

/-- The open has decided to repair the heads, or will, and has not finished. -/
def Phase.repairPending : Phase → Bool
  | .chartVersion hasHeads => !hasHeads
  | .chartChunks hasHeads rebuilt => rebuilt || !hasHeads
  | .headsDelete | .headsInsert => true
  | .closed | .artifactVersion | .artifactChunks | .ready => false

/-- The step does not stop an open whose repair is pending while the file looks current: the
heads table exists and the chart index carries the current version. -/
def Undisturbed (store : Store) : Action → Prop
  | .stop => store.phase.repairPending = true → ChartOutdated store.db.chart
  | .beginOpen | .continueOpen | .ingestBatch _ | .useOlder _ => True

instance (store : Store) (action : Action) : Decidable (Undisturbed store action) :=
  match action with
  | .stop => inferInstanceAs (Decidable (_ → _))
  | .beginOpen | .continueOpen | .ingestBatch _ | .useOlder _ => .isTrue trivial

/-- Every step of a run is undisturbed. -/
def Store.RunsUndisturbed (serde : Serde) : List Action → Store → Prop
  | [], _ => True
  | action :: rest, store => Undisturbed store action ∧
      ∀ store' ∈ store.step serde action, Store.RunsUndisturbed serde rest store'

instance Store.decideUndisturbed (serde : Serde) :
    ∀ actions store, Decidable (Store.RunsUndisturbed serde actions store)
  | [], _ => .isTrue trivial
  | action :: rest, store =>
    have (store' : Store) := Store.decideUndisturbed serde rest store'
    inferInstanceAs (Decidable (_ ∧ ∀ store' ∈ store.step serde action,
      Store.RunsUndisturbed serde rest store'))

/-- What is known of the heads in the course of an open. -/
def Store.HeadsKnown (serde : Serde) (store : Store) : Prop :=
  match store.phase with
  | .closed => (∀ heads, store.db.heads = some heads → HeadsValid store.db.snapshots heads) ∧
      (store.db.heads.isSome → ¬ ChartOutdated store.db.chart → HeadsExact serde store.db)
  | .chartVersion hasHeads =>
    (∃ heads, store.db.heads = some heads ∧ HeadsValid store.db.snapshots heads) ∧
      (hasHeads → ¬ ChartOutdated store.db.chart → HeadsExact serde store.db)
  | .chartChunks hasHeads rebuilt =>
    (∃ heads, store.db.heads = some heads ∧ HeadsValid store.db.snapshots heads) ∧
      (hasHeads → ¬ rebuilt → HeadsExact serde store.db)
  | .headsDelete => ∃ heads, store.db.heads = some heads ∧ HeadsValid store.db.snapshots heads
  | .headsInsert => ∃ heads, store.db.heads = some heads ∧ HeadsValid store.db.snapshots heads ∧
      ∀ head ∈ heads, head.snapshotId ∈ observationIds store.db
  | .artifactVersion | .artifactChunks | .ready => HeadsExact serde store.db

theorem Store.headsKnown_init : Store.init.HeadsKnown serde :=
  ⟨by simp [Store.init, Database.empty], by simp [Store.init, Database.empty]⟩

/-- Exact heads are all that a closed file needs. -/
theorem closed_of_exact {db : Database} (h : HeadsExact serde db) :
    (⟨db, .closed⟩ : Store).HeadsKnown serde := by
  obtain ⟨heads, hsome, hvalid⟩ := h.valid
  refine ⟨fun other hother ↦ ?_, fun _ _ ↦ h⟩
  obtain rfl := Option.some.inj (hsome.symm.trans hother)
  exact hvalid

/-- So are valid heads beside an outdated index. -/
theorem closed_of_outdated {db : Database} {heads : List HeadRow} (hsome : db.heads = some heads)
    (hvalid : HeadsValid db.snapshots heads) (houtdated : ChartOutdated db.chart) :
    (⟨db, .closed⟩ : Store).HeadsKnown serde := by
  refine ⟨fun other hother ↦ ?_, fun _ hcurrent ↦ absurd houtdated hcurrent⟩
  obtain rfl := Option.some.inj (hsome.symm.trans hother)
  exact hvalid

theorem stop_headsKnown {store : Store} (hstore : store.HeadsKnown serde)
    (hquiet : store.phase.repairPending = true → ChartOutdated store.db.chart) :
    (⟨store.db, .closed⟩ : Store).HeadsKnown serde := by
  obtain ⟨db, phase⟩ := store
  cases phase with
  | closed => exact hstore
  | chartVersion hasHeads =>
    obtain ⟨⟨heads, hsome, hvalid⟩, hexact⟩ := hstore
    by_cases houtdated : ChartOutdated db.chart
    · exact closed_of_outdated hsome hvalid houtdated
    · have hpresent : hasHeads = true := by
        by_contra hmissing
        exact houtdated (hquiet (by simp [Phase.repairPending, hmissing]))
      exact closed_of_exact (hexact hpresent houtdated)
  | chartChunks hasHeads rebuilt =>
    obtain ⟨⟨heads, hsome, hvalid⟩, hexact⟩ := hstore
    by_cases houtdated : ChartOutdated db.chart
    · exact closed_of_outdated hsome hvalid houtdated
    · have hdone : (rebuilt || !hasHeads) = false := by
        rw [← Bool.not_eq_true]
        exact fun hpending ↦ houtdated (hquiet hpending)
      simp only [Bool.or_eq_false_iff, Bool.not_eq_false'] at hdone
      exact closed_of_exact (hexact hdone.2 (by simp [hdone.1]))
  | headsDelete =>
    obtain ⟨heads, hsome, hvalid⟩ := hstore
    exact closed_of_outdated hsome hvalid (hquiet rfl)
  | headsInsert =>
    obtain ⟨heads, hsome, hvalid, -⟩ := hstore
    exact closed_of_outdated hsome hvalid (hquiet rfl)
  | artifactVersion | artifactChunks | ready => exact closed_of_exact hstore

theorem continueOpen_headsKnown (hserde : serde.RoundTrip) {store store' : Store}
    (hindexed : store.Indexed serde) (hstore : store.HeadsKnown serde)
    (h : Engine.continueOpen serde store = some store') : store'.HeadsKnown serde := by
  obtain ⟨hdb, hchart, hart⟩ := hindexed
  cases openStep_of_continueOpen h with
  | chartCurrent db hasHeads hcurrent =>
    obtain ⟨hvalid, hexact⟩ := hstore
    exact ⟨hvalid, fun hpresent _ ↦ hexact hpresent (not_not.mpr hcurrent)⟩
  | chartReset db hasHeads =>
    obtain ⟨hvalid, hexact⟩ := hstore
    exact ⟨hvalid, fun _ hrebuilt ↦ absurd rfl hrebuilt⟩
  | chartFailed db hasHeads rebuilt reason hrun =>
    -- on a consistent database this transaction does not fail
    obtain ⟨n, db', hreturns⟩ := chartChunk_isOk hserde hdb hchart
    rw [atomically_ok.mpr hreturns] at hrun
    simp at hrun
  | chartDone db db' hasHeads rebuilt hrun =>
    obtain ⟨hvalid, hexact⟩ := hstore
    obtain ⟨-, chart', -, rfl, -⟩ := chartChunk_stage hdb hchart hrun
    by_cases hpending : rebuilt = true ∨ ¬ hasHeads = true
    · simp only [hpending, if_true]
      exact hvalid
    · simp only [hpending, if_false]
      rw [not_or, not_not] at hpending
      exact hexact hpending.2 hpending.1
  | chartMore db db' hasHeads rebuilt n hrun =>
    obtain ⟨-, chart', -, rfl, -⟩ := chartChunk_stage hdb hchart hrun
    exact hstore
  | headsDeleted db =>
    obtain ⟨heads, hsome, hvalid⟩ := hstore
    refine ⟨heads.filter fun head ↦ head.snapshotId ∈ observationIds db, ?_, ⟨?_, ?_⟩, ?_⟩
    · unfold deleteHeads
      rw [hsome]
      rfl
    · exact hvalid.1.sublist (List.filter_sublist.map headKey)
    · exact fun head hmem ↦ hvalid.2 head (List.mem_filter.mp hmem).1
    · exact fun head hmem ↦ of_decide_eq_true (List.mem_filter.mp hmem).2
  | headsInserted db =>
    obtain ⟨heads, hsome, hvalid, hpruned⟩ := hstore
    exact insertHeads_exact hserde hdb hchart hsome hvalid hpruned
  | artifactCurrent | artifactReset => exact hstore
  | artifactFailed db reason hrun => exact closed_of_exact hstore
  | artifactDone db db' hrun | artifactMore db db' _ hrun =>
    obtain ⟨-, artifacts', -, rfl, -⟩ := artifactChunk_stage hdb hart hrun
    exact hstore

/-- The tables an open creates leave valid heads, exact ones if the file has any. -/
theorem createTables_headsKnown {db : Database} (hstore : (⟨db, .closed⟩ : Store).HeadsKnown serde) :
    (⟨createTables db, .chartVersion db.heads.isSome⟩ : Store).HeadsKnown serde := by
  obtain ⟨hvalid, hexact⟩ := hstore
  cases hheads : db.heads with
  | none =>
    refine ⟨⟨maxHeads db.snapshots, ?_, headsValid_maxHeads db.snapshots⟩, by simp⟩
    simp [createTables, hheads]
  | some heads =>
    have hsame : createTables db = db := by
      unfold createTables
      rw [hheads, Option.getD_some, ← hheads]
    rw [hsame]
    exact ⟨⟨heads, hheads, hvalid heads hheads⟩, fun _ ↦ hexact (by simp [hheads])⟩

/-- Heads of an older version are valid, and exact unless an index of that version came with them. -/
theorem older_headsKnown {db : Database} {older : Older} (holder : older.Possible db)
    (hstore : (⟨db, .closed⟩ : Store).HeadsKnown serde) :
    (⟨{ db with heads := older.heads, chart := older.chart, artifacts := older.artifacts },
      .closed⟩ : Store).HeadsKnown serde := by
  obtain ⟨hchart, -, hheads⟩ := holder
  obtain ⟨hvalid, hexact⟩ := hstore
  refine ⟨fun heads hsome ↦ ?_, fun hpresent hcurrent ↦ ?_⟩
  · rcases hheads with hsame | hnone | ⟨-, hother⟩
    · exact hvalid heads (hsame ▸ hsome)
    · simp [hnone] at hsome
    · dsimp only at hsome
      rw [hsome, Option.getD_some] at hother
      exact hother
  · have hunchanged : older.chart = db.chart := hchart.resolve_right hcurrent
    rcases hheads with hsame | hnone | ⟨houtdated, -⟩
    · have hdb : HeadsExact serde db := by
        refine hexact ?_ ?_
        · rw [← hsame]
          exact hpresent
        · rw [← hunchanged]
          exact hcurrent
      unfold HeadsExact
      dsimp only
      rw [hsame]
      exact hdb
    · simp [hnone] at hpresent
    · exact absurd houtdated hcurrent

theorem Store.step_headsKnown (hserde : serde.RoundTrip) {store store' : Store} {action : Action}
    (hindexed : store.Indexed serde) (hstore : store.HeadsKnown serde)
    (hquiet : Undisturbed store action) (h : store.step serde action = some store') :
    store'.HeadsKnown serde := by
  cases action with
  | beginOpen =>
    simp only [Store.step, Option.ite_none_right_eq_some, Option.some.injEq] at h
    obtain ⟨hclosed, rfl⟩ := h
    obtain ⟨db, phase⟩ := store
    obtain rfl : phase = .closed := hclosed
    exact createTables_headsKnown hstore
  | continueOpen => exact continueOpen_headsKnown hserde hindexed hstore h
  | stop =>
    obtain rfl := Option.some.inj h
    exact stop_headsKnown hstore hquiet
  | ingestBatch pages =>
    simp only [Store.step, Option.ite_none_right_eq_some, Option.some.injEq, ingestBatch_eq] at h
    obtain ⟨hready, rfl⟩ := h
    obtain ⟨db, phase⟩ := store
    obtain rfl : phase = .ready := hready
    exact ingestSequentially_headsExact hserde pages hindexed.consistent hstore
  | useOlder older =>
    simp only [Store.step, Option.ite_none_right_eq_some, Option.some.injEq] at h
    obtain ⟨⟨hclosed, holder⟩, rfl⟩ := h
    obtain ⟨db, phase⟩ := store
    obtain rfl : phase = .closed := hclosed
    exact older_headsKnown holder hstore

/-! ## The heads of an open store -/

theorem Store.run_headsKnown (hserde : serde.RoundTrip) {actions : List Action}
    {store store' : Store} (hindexed : store.Indexed serde) (hstore : store.HeadsKnown serde)
    (hquiet : Store.RunsUndisturbed serde actions store) (h : store.run serde actions = some store') :
    store'.HeadsKnown serde := by
  induction actions generalizing store with
  | nil =>
    have heq : store = store' := by simpa [Store.run] using h
    exact heq ▸ hstore
  | cons action rest ih =>
    simp only [Store.run, List.foldlM_cons, Option.bind_eq_bind, Option.bind_eq_some_iff] at h
    obtain ⟨middle, hmiddle, hrest⟩ := h
    exact ih (Store.step_indexed hserde hindexed hmiddle)
      (Store.step_headsKnown hserde hindexed hstore hquiet.1 hmiddle) (hquiet.2 middle hmiddle) hrest

structure SnapshotLatestRequest where
  runId : String
  sourceIds : List String
  afterSourceId : Option String
  limit : ℕ

/-- The rows `latest` reads, in order, before it cuts them to one page. -/
def latestRows (request : SnapshotLatestRequest) (db : Database) :
    Except EngineError (List SnapshotRow) :=
  match db.heads with
  | none => .error .sqlite
  | some heads =>
    let matching := heads.filter fun head ↦ head.runId = request.runId ∧
      (request.sourceIds = [] ∨ head.sourceId ∈ request.sourceIds) ∧
      ∀ source ∈ request.afterSourceId, source < head.sourceId
    let selected := (matching.mergeSort fun head other ↦ head.sourceId ≤ other.sourceId).take
      (request.limit + 1)
    .ok ((db.snapshots.filter fun row ↦ row.id ∈ selected.map HeadRow.snapshotId).mergeSort
      fun row other ↦ row.sourceId ≤ other.sourceId)

/-- Under exact heads `latest` reads nothing but newest observations. -/
theorem HeadsExact.latestRows {db : Database} (h : HeadsExact serde db) (hdb : Consistent db)
    {request : SnapshotLatestRequest} {rows : List SnapshotRow}
    (hrows : latestRows request db = .ok rows) {row : SnapshotRow} (hrow : row ∈ rows) :
    row ∈ db.snapshots ∧ row.runId = request.runId ∧
      serde.isObservation row.snapshotJson = true ∧
      latestObservation serde row.runId row.sourceId db.snapshots = some row.id := by
  obtain ⟨heads, hsome, hkeys, hexact⟩ := h
  simp only [Engine.latestRows, hsome, Except.ok.injEq] at hrows
  subst hrows
  rw [List.mem_mergeSort, List.mem_filter, decide_eq_true_eq] at hrow
  obtain ⟨hstored, hid⟩ := hrow
  obtain ⟨head, hhead, hid⟩ := List.mem_map.mp hid
  have hmatching := List.mem_of_mem_take hhead
  rw [List.mem_mergeSort, List.mem_filter, decide_eq_true_eq] at hmatching
  obtain ⟨hmem, hrun, -⟩ := hmatching
  have hlatest := hexact head.runId head.sourceId
  rw [show (head.runId, head.sourceId) = headKey head from rfl,
    Table.lookup_eq_some_of_mem hkeys hmem, Option.map_some, hid] at hlatest
  obtain ⟨other, hother, hsame⟩ := List.mem_map.mp (List.max?_mem hlatest.symm)
  rw [List.mem_filter, decide_eq_true_eq] at hother
  obtain ⟨hother, hrun', hsource, hkind⟩ := hother
  obtain rfl := hdb.rows.eq_of_id hother hstored hsame
  rw [hrun', hsource]
  exact ⟨hstored, hrun, hkind, hlatest.symm⟩

/-- In a run whose opens are not stopped before a pending repair, an open store has exact heads,
and the latest snapshots it reads are the newest observations of the run. -/
theorem Store.heads_exact (hserde : serde.RoundTrip) {actions : List Action} {store : Store}
    (hquiet : Store.RunsUndisturbed serde actions .init)
    (hrun : Store.init.run serde actions = some store) (hready : store.phase = .ready) :
    HeadsExact serde store.db ∧
      ∀ request rows, latestRows request store.db = .ok rows → ∀ row ∈ rows,
        serde.isObservation row.snapshotJson = true ∧
          latestObservation serde row.runId row.sourceId store.db.snapshots = some row.id := by
  have hstore : store.Reachable serde := ⟨actions, hrun⟩
  have hknown := Store.run_headsKnown hserde Store.indexed_init Store.headsKnown_init hquiet hrun
  have hexact : HeadsExact serde store.db := by
    unfold Store.HeadsKnown at hknown
    rw [hready] at hknown
    exact hknown
  refine ⟨hexact, fun request rows hrows row hrow ↦ ?_⟩
  exact (hexact.latestRows hstore.consistent hrows hrow).2.2

/-- A tracker event at step 0. -/
def sampleEvent : Json :=
  .literal [("tracker", .literal [("commit", .int 0), ("kind", .text "event"),
    ("record_version", .int 1), ("status", .text "running"), ("step", .int 0)])]

/-- The snapshots of the sample session that ends with an event. -/
def sampleSnapshots : List StateSnapshot :=
  [sampleSnapshot 0 sampleState, sampleSnapshot 1 sampleEvent]

/-- The same file, opened without interruption. -/
def sampleRepaired : List Action :=
  openNew ++ [.ingestBatch [sampleDelivery 0 none sampleSnapshots], .stop,
    .useOlder ⟨none, none, none⟩, .beginOpen] ++ List.replicate 8 .continueOpen

theorem Store.heads_exact_sample :
    ∃ store, Store.init.run (.inverse sampleSnapshots) sampleRepaired = some store ∧
      HeadsExact (.inverse sampleSnapshots) store.db ∧
      latestObservation (.inverse sampleSnapshots) "run-1" "trainer" store.db.snapshots =
        some 1 := by
  have hrun : (Store.init.run (.inverse sampleSnapshots) sampleRepaired).map
      (fun store ↦ (store.phase,
        latestObservation (.inverse sampleSnapshots) "run-1" "trainer" store.db.snapshots)) =
      some (.ready, some 1) := by decide +kernel
  obtain ⟨store, hstore, hvalues⟩ := Option.map_eq_some_iff.mp hrun
  simp only [Prod.mk.injEq] at hvalues
  exact ⟨store, hstore, (Store.heads_exact (Serde.inverse_roundTrip _) (by decide +kernel) hstore
    hvalues.1).1, hvalues.2⟩

/-- A file without derived tables whose open is stopped after it reset the chart index: the next
open completes, and does not repair the heads. -/
def sampleInterrupted : List Action :=
  openNew ++ [.ingestBatch [sampleDelivery 0 none sampleSnapshots], .stop,
    .useOlder ⟨none, none, none⟩, .beginOpen, .continueOpen, .stop, .beginOpen] ++
      List.replicate 6 .continueOpen

/-- Without the condition the heads of an open store can point at an event for good. -/
theorem Store.heads_not_exact :
    ¬ ∀ (serde : Serde) (actions : List Action) (store : Store), serde.RoundTrip →
      Store.init.run serde actions = some store → store.phase = .ready →
      HeadsExact serde store.db := by
  intro h
  have hrun : (Store.init.run (.inverse sampleSnapshots) sampleInterrupted).map
      (fun store ↦ (store.phase, store.db.heads.map (Table.lookup headKey ("run-1", "trainer")),
        latestObservation (.inverse sampleSnapshots) "run-1" "trainer" store.db.snapshots)) =
      some (.ready, some (some ⟨"run-1", "trainer", 2⟩), some 1) := by decide +kernel
  obtain ⟨store, hstore, hvalues⟩ := Option.map_eq_some_iff.mp hrun
  simp only [Prod.mk.injEq] at hvalues
  obtain ⟨hready, hhead, hlatest⟩ := hvalues
  obtain ⟨heads, hsome, -, hexact⟩ := h _ _ store (Serde.inverse_roundTrip _) hstore hready
  rw [hsome, Option.map_some, Option.some.injEq] at hhead
  have hpair := hexact "run-1" "trainer"
  rw [hhead, hlatest] at hpair
  exact absurd hpair (by decide)

end Rvx.Engine
