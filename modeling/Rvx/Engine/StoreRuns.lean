import Rvx.Engine.Batch
import Rvx.Engine.Lifecycle

/-!
# Raw tables over the life of a store

Only batches write the raw tables; every transaction of an open, every interruption and every
older version leaves them alone.  So the exact cover holds in every reachable state, rows and
cursors only grow, and the answer given to a publisher is the truth about the stored records.
-/

namespace Rvx.Engine

open Core Check Script Database

variable {serde : Serde}

/-! ## What a step does to the raw tables -/

/-- The raw tables of two databases agree. -/
structure SameRaw (db db' : Database) : Prop where
  snapshots : db'.snapshots = db.snapshots
  snapshotSeq : db'.snapshotSeq = db.snapshotSeq
  cursors : db'.cursors = db.cursors
  gaps : db'.gaps = db.gaps

theorem SameRaw.refl (db : Database) : SameRaw db db := ⟨rfl, rfl, rfl, rfl⟩

theorem SameRaw.consistent {db db' : Database} (h : SameRaw db db') (hdb : Consistent db) :
    Consistent db' ∧ Grows db db' := by
  have hcursor (source session : String) : db'.cursor source session = db.cursor source session := by
    unfold cursor
    rw [h.cursors]
  refine ⟨⟨⟨?_, ?_, ?_, ?_⟩, fun source session ↦ ?_⟩, ?_, fun source session ↦ (hcursor _ _).ge⟩
  · rw [h.snapshots]
    exact hdb.rows.ids_ascending
  · rw [h.snapshots]
    exact hdb.rows.ids_pos
  · rw [h.snapshots, h.snapshotSeq]
    exact hdb.rows.ids_le
  · rw [h.snapshots]
    exact hdb.rows.written
  · have hcover := hdb.cover source session
    rw [← hcursor] at hcover
    unfold storedSequences rowsOf lostIntervals gapsOf at hcover ⊢
    rw [h.snapshots, h.gaps]
    exact hcover
  · rw [h.snapshots]

theorem chartChunk_returns {n : ℕ} {db db' : Database} :
    (chartChunk serde).Returns db n db' ↔
      ∃ chart, db.chart = some chart ∧ ∃ chart',
        (indexRows serde ChartIndex.insert true 0 0 (pendingRows chart.lastId db)).Returns chart n
          chart' ∧ { db with chart := some chart' } = db' := by
  simp only [chartChunk, onChart, returns_bind, returns_onSome, returns_read]
  constructor
  · rintro ⟨_, _, ⟨chart, hchart, _, ⟨rfl, rfl⟩, rfl⟩, _, _, ⟨rfl, rfl⟩, chart', hchart', part,
      hrun, rfl⟩
    obtain rfl := Option.some.inj hchart'
    exact ⟨chart, hchart, part, hrun, rfl⟩
  · rintro ⟨chart, hchart, chart', hrun, rfl⟩
    have hsame : { db with chart := some chart } = db := by rw [← hchart]
    refine ⟨_, _, ⟨chart, hchart, chart, ⟨rfl, rfl⟩, hsame⟩, _, _, ⟨rfl, rfl⟩, chart, hchart, chart',
      hrun, rfl⟩

theorem artifactChunk_returns {n : ℕ} {db db' : Database} :
    (artifactChunk serde).Returns db n db' ↔
      ∃ artifacts, db.artifacts = some artifacts ∧ ∃ artifacts',
        (indexRows serde (ArtifactIndex.insert serde.artifactMessage) false 0 0
          (pendingRows artifacts.lastId db)).Returns artifacts n artifacts' ∧
        { db with artifacts := some artifacts' } = db' := by
  simp only [artifactChunk, onArtifacts, returns_bind, returns_onSome, returns_read]
  constructor
  · rintro ⟨_, _, ⟨artifacts, hart, _, ⟨rfl, rfl⟩, rfl⟩, _, _, ⟨rfl, rfl⟩, artifacts', hart', part,
      hrun, rfl⟩
    obtain rfl := Option.some.inj hart'
    exact ⟨artifacts, hart, part, hrun, rfl⟩
  · rintro ⟨artifacts, hart, artifacts', hrun, rfl⟩
    have hsame : { db with artifacts := some artifacts } = db := by rw [← hart]
    refine ⟨_, _, ⟨artifacts, hart, artifacts, ⟨rfl, rfl⟩, hsame⟩, _, _, ⟨rfl, rfl⟩, artifacts, hart,
      artifacts', hrun, rfl⟩


/-- What one transaction of an open does. -/
inductive OpenStep (serde : Serde) : Store → Store → Prop
  | chartCurrent (db : Database) (hasHeads : Bool)
      (hcurrent : db.chart.map ChartIndex.version = some INDEX_VERSION) :
      OpenStep serde ⟨db, .chartVersion hasHeads⟩ ⟨db, .chartChunks hasHeads false⟩
  | chartReset (db : Database) (hasHeads : Bool) :
      OpenStep serde ⟨db, .chartVersion hasHeads⟩
        ⟨{ db with chart := some .empty }, .chartChunks hasHeads true⟩
  | chartFailed (db : Database) (hasHeads rebuilt : Bool) (reason : EngineError)
      (hrun : (chartChunk serde).atomically db = (.error reason, db)) :
      OpenStep serde ⟨db, .chartChunks hasHeads rebuilt⟩ ⟨db, .closed⟩
  | chartDone (db db' : Database) (hasHeads rebuilt : Bool)
      (hrun : (chartChunk serde).Returns db 0 db') :
      OpenStep serde ⟨db, .chartChunks hasHeads rebuilt⟩
        ⟨db', if rebuilt ∨ ¬ hasHeads then .headsDelete else .artifactVersion⟩
  | chartMore (db db' : Database) (hasHeads rebuilt : Bool) (n : ℕ)
      (hrun : (chartChunk serde).Returns db (n + 1) db') :
      OpenStep serde ⟨db, .chartChunks hasHeads rebuilt⟩ ⟨db', .chartChunks hasHeads rebuilt⟩
  | headsDeleted (db : Database) :
      OpenStep serde ⟨db, .headsDelete⟩ ⟨deleteHeads db, .headsInsert⟩
  | headsInserted (db : Database) :
      OpenStep serde ⟨db, .headsInsert⟩ ⟨insertHeads db, .artifactVersion⟩
  | artifactCurrent (db : Database)
      (hcurrent : db.artifacts.map ArtifactIndex.version = some VERSION) :
      OpenStep serde ⟨db, .artifactVersion⟩ ⟨db, .artifactChunks⟩
  | artifactReset (db : Database) :
      OpenStep serde ⟨db, .artifactVersion⟩
        ⟨{ db with artifacts := some .empty }, .artifactChunks⟩
  | artifactFailed (db : Database) (reason : EngineError)
      (hrun : (artifactChunk serde).atomically db = (.error reason, db)) :
      OpenStep serde ⟨db, .artifactChunks⟩ ⟨db, .closed⟩
  | artifactDone (db db' : Database) (hrun : (artifactChunk serde).Returns db 0 db') :
      OpenStep serde ⟨db, .artifactChunks⟩ ⟨db', .ready⟩
  | artifactMore (db db' : Database) (n : ℕ)
      (hrun : (artifactChunk serde).Returns db (n + 1) db') :
      OpenStep serde ⟨db, .artifactChunks⟩ ⟨db', .artifactChunks⟩

theorem openStep_of_continueOpen {store store' : Store}
    (h : Engine.continueOpen serde store = some store') : OpenStep serde store store' := by
  obtain ⟨db, phase⟩ := store
  cases phase with
  | closed => simp [Engine.continueOpen] at h
  | ready => simp [Engine.continueOpen] at h
  | headsDelete =>
    obtain rfl := Option.some.inj h
    exact .headsDeleted db
  | headsInsert =>
    obtain rfl := Option.some.inj h
    exact .headsInserted db
  | chartVersion hasHeads =>
    by_cases hcurrent : db.chart.map ChartIndex.version = some INDEX_VERSION
    · simp only [Engine.continueOpen, hcurrent, if_true, Option.some.injEq] at h
      exact h ▸ .chartCurrent db hasHeads hcurrent
    · simp only [Engine.continueOpen, hcurrent, if_false, Option.some.injEq] at h
      exact h ▸ .chartReset db hasHeads
  | artifactVersion =>
    by_cases hcurrent : db.artifacts.map ArtifactIndex.version = some VERSION
    · simp only [Engine.continueOpen, hcurrent, if_true, Option.some.injEq] at h
      exact h ▸ .artifactCurrent db hcurrent
    · simp only [Engine.continueOpen, hcurrent, if_false, Option.some.injEq] at h
      exact h ▸ .artifactReset db
  | chartChunks hasHeads rebuilt =>
    cases hrun : (chartChunk serde).atomically db with
    | mk result db' =>
      simp only [Engine.continueOpen, hrun] at h
      cases result with
      | error reason =>
        obtain rfl := Option.some.inj h
        obtain rfl := atomically_error hrun
        exact .chartFailed _ hasHeads rebuilt reason hrun
      | ok n =>
        cases n with
        | zero =>
          obtain rfl := Option.some.inj h
          exact .chartDone db db' hasHeads rebuilt (atomically_ok.mp hrun)
        | succ n =>
          obtain rfl := Option.some.inj h
          exact .chartMore db db' hasHeads rebuilt n (atomically_ok.mp hrun)
  | artifactChunks =>
    cases hrun : (artifactChunk serde).atomically db with
    | mk result db' =>
      simp only [Engine.continueOpen, hrun] at h
      cases result with
      | error reason =>
        obtain rfl := Option.some.inj h
        obtain rfl := atomically_error hrun
        exact .artifactFailed _ reason hrun
      | ok n =>
        cases n with
        | zero =>
          obtain rfl := Option.some.inj h
          exact .artifactDone db db' (atomically_ok.mp hrun)
        | succ n =>
          obtain rfl := Option.some.inj h
          exact .artifactMore db db' n (atomically_ok.mp hrun)

/-- A transaction that rebuilds the chart index writes that index only. -/
theorem chartChunk_sameRaw {n : ℕ} {db db' : Database} (h : (chartChunk serde).Returns db n db') :
    SameRaw db db' ∧ db'.heads = db.heads := by
  obtain ⟨chart, -, chart', -, rfl⟩ := chartChunk_returns.mp h
  exact ⟨⟨rfl, rfl, rfl, rfl⟩, rfl⟩

theorem artifactChunk_sameRaw {n : ℕ} {db db' : Database}
    (h : (artifactChunk serde).Returns db n db') : SameRaw db db' ∧ db'.heads = db.heads := by
  obtain ⟨artifacts, -, artifacts', -, rfl⟩ := artifactChunk_returns.mp h
  exact ⟨⟨rfl, rfl, rfl, rfl⟩, rfl⟩

theorem continueOpen_sameRaw {store store' : Store}
    (h : Engine.continueOpen serde store = some store') : SameRaw store.db store'.db := by
  cases openStep_of_continueOpen h with
  | chartCurrent | chartFailed | artifactCurrent | artifactFailed => exact SameRaw.refl _
  | chartReset | headsDeleted | headsInserted | artifactReset => exact ⟨rfl, rfl, rfl, rfl⟩
  | chartDone _ _ _ _ hrun | chartMore _ _ _ _ _ hrun => exact (chartChunk_sameRaw hrun).1
  | artifactDone _ _ hrun | artifactMore _ _ _ hrun => exact (artifactChunk_sameRaw hrun).1

/-- Only a batch on an open store writes the raw tables. -/
theorem Store.step_raw {store store' : Store} {action : Action}
    (h : store.step serde action = some store') :
    SameRaw store.db store'.db ∨
      ∃ pages, action = .ingestBatch pages ∧ store.phase = .ready ∧
        store' = { store with db := (ingestSequentially serde pages store.db).2 } := by
  cases action with
  | beginOpen =>
    simp only [Store.step, Option.ite_none_right_eq_some, Option.some.injEq] at h
    obtain ⟨-, rfl⟩ := h
    exact Or.inl ⟨rfl, rfl, rfl, rfl⟩
  | continueOpen => exact Or.inl (continueOpen_sameRaw h)
  | stop =>
    simp only [Store.step, Option.some.injEq] at h
    subst h
    exact Or.inl (SameRaw.refl _)
  | ingestBatch pages =>
    simp only [Store.step, Option.ite_none_right_eq_some, Option.some.injEq, ingestBatch_eq] at h
    exact Or.inr ⟨pages, rfl, h.1, h.2.symm⟩
  | useOlder older =>
    simp only [Store.step, Option.ite_none_right_eq_some, Option.some.injEq] at h
    obtain ⟨-, rfl⟩ := h
    exact Or.inl ⟨rfl, rfl, rfl, rfl⟩

theorem Store.step_consistent {store store' : Store} {action : Action}
    (hstore : Consistent store.db) (h : store.step serde action = some store') :
    Consistent store'.db ∧ Grows store.db store'.db := by
  rcases Store.step_raw h with hraw | ⟨pages, -, -, rfl⟩
  · exact hraw.consistent hstore
  · exact ingestSequentially_consistent serde pages hstore

theorem Store.run_consistent {store store' : Store} {actions : List Action}
    (hstore : Consistent store.db) (h : store.run serde actions = some store') :
    Consistent store'.db ∧ Grows store.db store'.db := by
  refine Store.run_induction (fun middle ↦ Consistent middle.db ∧ Grows store.db middle.db) ?_
    ⟨hstore, Grows.refl _⟩ h
  rintro middle action next ⟨hmiddle, hgrows⟩ hstep
  obtain ⟨hnext, hgrows'⟩ := Store.step_consistent hmiddle hstep
  exact ⟨hnext, hgrows.trans hgrows'⟩

/-- The states a store can be in. -/
def Store.Reachable (serde : Serde) (store : Store) : Prop :=
  ∃ actions, Store.init.run serde actions = some store

theorem Store.Reachable.consistent {store : Store} (h : store.Reachable serde) :
    Consistent store.db := by
  obtain ⟨actions, hrun⟩ := h
  exact (Store.run_consistent consistent_empty hrun).1

theorem Store.Reachable.run {store store' : Store} {actions : List Action}
    (h : store.Reachable serde) (hrun : store.run serde actions = some store') :
    store'.Reachable serde := by
  obtain ⟨before, hbefore⟩ := h
  refine ⟨before ++ actions, ?_⟩
  simp only [Store.run, List.foldlM_append, Option.bind_eq_bind] at hbefore hrun ⊢
  rw [hbefore]
  exact hrun

/-! ## The exact cover in every reachable state -/

/-- In every reachable state the stored sequences and the recorded gaps of a session partition
exactly the sequences below its cursor; later steps keep every stored snapshot and never move the
cursor back. -/
theorem Store.run_exactCover (serde : Serde) {before after : List Action} {store store' : Store}
    (h : Store.init.run serde before = some store)
    (hrun : store.run serde after = some store') (source session : String) :
    ExactCover (store.db.cursor source session) (store.db.storedSequences source session)
        (store.db.lostIntervals source session) ∧
      (∀ sequence row, store.db.stored source session sequence = some row →
        store'.db.stored source session sequence = some row) ∧
      store.db.cursor source session ≤ store'.db.cursor source session := by
  have hstore : store.Reachable serde := ⟨before, h⟩
  have hgrows := (Store.run_consistent hstore.consistent hrun).2
  exact ⟨hstore.consistent.cover source session, fun _ _ hrow ↦ hgrows.stored hrow,
    hgrows.cursor source session⟩

/-- The steps that open a new file. -/
def openNew : List Action := .beginOpen :: List.replicate 6 .continueOpen

def sampleSource : Source := ⟨"trainer", "run-1", "attempt-1", "learner"⟩

def sampleDescriptor : SnapshotDescriptor :=
  ⟨1, "session-1", "project-1", "experiment-1", "run-1", "attempt-1", "learner", none, .empty, 1⟩

def sampleSnapshot (sequence : ℕ) (state : Json) : StateSnapshot :=
  ⟨"session-1", sequence, 100, 1, .empty, state⟩

/-- A state without fields. -/
def sampleState : Json := ⟨.object [], by decide⟩

def sampleDelivery (oldest : ℕ) (dropped : Option ℕ) (snapshots : List StateSnapshot) : Delivery :=
  ⟨sampleSource, sampleDescriptor,
    ⟨1, "session-1", oldest, oldest + snapshots.length, dropped, snapshots⟩, fun _ ↦ 200⟩

/-- A session that starts with a gap. -/
def sampleBefore : List Action :=
  openNew ++ [.ingestBatch [sampleDelivery 2 (some 2) [sampleSnapshot 2 sampleState]]]

/-- A page that skips a sequence and is rejected, then the next page. -/
def sampleAfter : List Action :=
  [.ingestBatch [sampleDelivery 5 none [sampleSnapshot 5 sampleState],
    sampleDelivery 3 none [sampleSnapshot 3 sampleState]]]

theorem Store.run_exactCover_sample :
    ∃ store store', Store.init.run (.inverse []) sampleBefore = some store ∧
      store.run (.inverse []) sampleAfter = some store' ∧
      ExactCover (store.db.cursor "trainer" "session-1")
        (store.db.storedSequences "trainer" "session-1")
        (store.db.lostIntervals "trainer" "session-1") ∧
      store.db.lostIntervals "trainer" "session-1" = [(0, 2)] ∧
      store'.db.storedSequences "trainer" "session-1" = [2, 3] := by
  have hfirst : ((Store.init.run (.inverse []) sampleBefore).map fun store ↦
      store.db.lostIntervals "trainer" "session-1") = some [(0, 2)] := by decide +kernel
  have hsecond : (((Store.init.run (.inverse []) sampleBefore).bind fun store ↦
      store.run (.inverse []) sampleAfter).map fun store ↦
        store.db.storedSequences "trainer" "session-1") = some [2, 3] := by decide +kernel
  obtain ⟨store, hstore, hlost⟩ := Option.map_eq_some_iff.mp hfirst
  rw [hstore, Option.bind_some] at hsecond
  obtain ⟨store', hstore', hsequences⟩ := Option.map_eq_some_iff.mp hsecond
  have hcover := Store.run_exactCover (.inverse []) hstore hstore' "trainer" "session-1"
  exact ⟨store, store', hstore, hstore', hcover.1, hlost, hsequences⟩

/-! ## The answer given to a publisher -/

theorem mem_storedSequences_iff_stored {db : Database} {source session : String} {sequence : ℕ} :
    sequence ∈ db.storedSequences source session ↔
      ∃ row, db.stored source session sequence = some row := by
  rw [mem_storedSequences]
  constructor
  · rintro ⟨row, hrow, hsource, hsession, hsequence⟩
    cases hstored : db.stored source session sequence with
    | some other => exact ⟨other, rfl⟩
    | none =>
      refine absurd ?_ (Table.lookup_eq_none.mp hstored row hrow)
      simp [snapshotKey, hsource, hsession, hsequence]
  · rintro ⟨row, hstored⟩
    exact ⟨row, stored_some hstored⟩

theorem persistedCursor_ok {request : PersistedCursorRequest} {db : Database}
    {response : PersistedCursorResponse} :
    persistedCursor request db = .ok response ↔
      checkIds [request.runId, request.sourceId, request.sourceSessionId] 3 = .ok () ∧
        request.nextSequence ≤ I64_MAX ∧
        response =
          let persisted := db.cursor request.sourceId request.sourceSessionId
          let gaps := decide (∃ gap ∈ db.lostIntervals request.sourceId request.sourceSessionId,
            gap.1 < request.nextSequence)
          ⟨request.runId, request.sourceId, request.sourceSessionId, persisted,
            decide (persisted ≥ request.nextSequence) && !gaps, gaps⟩ := by
  have hgaps : (db.gaps.any fun row ↦ decide (row.sourceId = request.sourceId ∧
        row.sourceSessionId = request.sourceSessionId ∧
        row.expectedSequence < request.nextSequence)) =
      decide (∃ gap ∈ db.lostIntervals request.sourceId request.sourceSessionId,
        gap.1 < request.nextSequence) := by
    rw [Bool.eq_iff_iff, List.any_eq_true, decide_eq_true_eq]
    constructor
    · rintro ⟨row, hrow, hmatch⟩
      obtain ⟨hsource, hsession, hlt⟩ := of_decide_eq_true hmatch
      exact ⟨_, mem_lostIntervals.mpr ⟨row, hrow, hsource, hsession, rfl⟩, hlt⟩
    · rintro ⟨gap, hgap, hlt⟩
      obtain ⟨row, hrow, hsource, hsession, rfl⟩ := mem_lostIntervals.mp hgap
      exact ⟨row, hrow, decide_eq_true ⟨hsource, hsession, hlt⟩⟩
  simp only [persistedCursor, bind_eq_ok, exists_unit, reject_ok, pure_eq_ok, hgaps, gt_iff_lt,
    not_lt, eq_comm (a := response)]

/-- A publisher is told `complete` exactly when every record below the asked sequence is stored,
and `has_gaps` exactly when one of them was recorded as lost. -/
theorem persistedCursor_exact {store : Store} (hstore : store.Reachable serde)
    (request : PersistedCursorRequest) (hrange : request.nextSequence ≤ I64_MAX) :
    (checkIds [request.runId, request.sourceId, request.sourceSessionId] 3 = .ok () →
      ∃ response, persistedCursor request store.db = .ok response) ∧
      ∀ response, persistedCursor request store.db = .ok response →
        (response.complete = true ↔ ∀ sequence < request.nextSequence, ∃ row,
          store.db.stored request.sourceId request.sourceSessionId sequence = some row) ∧
        (response.hasGaps = true ↔ ∃ sequence < request.nextSequence,
          ∃ gap ∈ store.db.lostIntervals request.sourceId request.sourceSessionId,
            sequence ∈ Set.Ico gap.1 gap.2) := by
  refine ⟨fun hids ↦ ⟨_, persistedCursor_ok.mpr ⟨hids, hrange, rfl⟩⟩, fun response h ↦ ?_⟩
  obtain ⟨-, -, rfl⟩ := persistedCursor_ok.mp h
  have hcover := hstore.consistent.cover request.sourceId request.sourceSessionId
  constructor
  · have hcomplete := hcover.complete_iff request.nextSequence
    simp only [mem_storedSequences_iff_stored] at hcomplete
    rw [← hcomplete]
    simp
  · rw [← hcover.lost_below_iff]
    simp

/-- The publisher of the sample session is told that a record below 3 was lost. -/
theorem persistedCursor_sample :
    ∃ (store : Store) (response : PersistedCursorResponse), store.Reachable (.inverse []) ∧
      persistedCursor ⟨"run-1", "trainer", "session-1", 3⟩ store.db = .ok response ∧
      (response.complete = true ↔ ∀ sequence < 3, ∃ row,
        store.db.stored "trainer" "session-1" sequence = some row) ∧
      (response.hasGaps = true ↔ ∃ sequence < 3,
        ∃ gap ∈ store.db.lostIntervals "trainer" "session-1",
          sequence ∈ Set.Ico gap.1 gap.2) := by
  have hrun : (Store.init.run (.inverse []) sampleBefore).isSome := by decide +kernel
  obtain ⟨store, hstore⟩ := Option.isSome_iff_exists.mp hrun
  have hreachable : store.Reachable (.inverse []) := ⟨sampleBefore, hstore⟩
  obtain ⟨hanswer, hexact⟩ := persistedCursor_exact hreachable
    ⟨"run-1", "trainer", "session-1", 3⟩ (by decide)
  obtain ⟨response, hresponse⟩ := hanswer (by rfl)
  exact ⟨store, response, hreachable, hresponse, hexact response hresponse⟩

end Rvx.Engine
