import Rvx.Lib.Runs
import Rvx.Snapshots.Admission
import Rvx.Tracking.Atomicity

/-!
# Committing the open row

A call that opens a row or adds to it is checked against the budgets of the working state.  The
commit of the row by a later flush or by the end of the run needs more: the merged history record,
the summary, the rolling series and the snapshots have limits of their own.  In every reachable
state these limits are all that decides whether the row can be committed.
-/

namespace Rvx.Tracking

open Core Check Snapshots

theorem mergeHistory_isOk {floats : FloatText} {options : TrackerOptions} {history : History}
    {record : CommittedStep} :
    (∃ merged, mergeHistory floats options history record = .ok merged) ↔
      String.utf8Len ((mergedRecord history record).chars floats) ≤ options.maxHistoryBytes := by
  simp only [mergeHistory, bind_eq_ok, exists_unit, reject_ok, pure_eq_ok, not_lt]
  constructor
  · rintro ⟨merged, hfits, -⟩
    exact hfits
  · exact fun hfits ↦ ⟨_, hfits, rfl⟩

namespace Tracker

variable (tracker : Tracker)

/-- The bytes the rolling series of the rules are accounted for. -/
def seriesBytes (alerts : AlertEngine) : ℕ :=
  (alerts.series.entries.map fun entry ↦
    entry.1.utf8ByteSize + entry.2.length * 24 + 128).sum

/-- A state within the budgets of the tracker. -/
structure WithinBudget (state : TrackerState) : Prop where
  metrics : state.openMetrics.size ≤ tracker.options.maxMetrics
  summary : state.summary.size ≤ tracker.options.maxMetrics
  spans : state.openSpans.length ≤ tracker.options.maxSpans
  bytes : String.utf8Len (tracker.workingState state).value.print ≤ tracker.options.maxStateBytes
  series : state.alerts.series.size ≤ tracker.options.maxMetrics
  seriesBytes : seriesBytes state.alerts ≤ tracker.options.maxAlertSeriesBytes

theorem checkBudget_eq_ok {state : TrackerState} :
    tracker.checkBudget state = .ok () ↔ tracker.WithinBudget state := by
  have hbudget : tracker.checkBudget state = .ok () ↔
      (state.openMetrics.size ≤ tracker.options.maxMetrics ∧
        state.summary.size ≤ tracker.options.maxMetrics ∧
        state.openSpans.length ≤ tracker.options.maxSpans) ∧
      String.utf8Len (tracker.workingState state).value.print ≤ tracker.options.maxStateBytes ∧
      state.alerts.series.size ≤ tracker.options.maxMetrics ∧
        seriesBytes state.alerts ≤ tracker.options.maxAlertSeriesBytes := by
    simp only [checkBudget, AlertEngine.checkBudget, bind_eq_ok, exists_unit, reject_ok, not_or,
      gt_iff_lt, not_lt, seriesBytes]
  rw [hbudget]
  constructor
  · rintro ⟨⟨hmetrics, hsummary, hspans⟩, hbytes, hseries, hseriesBytes⟩
    exact ⟨hmetrics, hsummary, hspans, hbytes, hseries, hseriesBytes⟩
  · intro h
    exact ⟨⟨h.metrics, h.summary, h.spans⟩, h.bytes, h.series, h.seriesBytes⟩

/-- The budgets only depend on the open values, the summary and the series. -/
theorem WithinBudget.congr {tracker : Tracker} {state state' : TrackerState}
    (h : tracker.WithinBudget state) (hmetrics : state'.openMetrics = state.openMetrics)
    (hspans : state'.openSpans = state.openSpans) (hsummary : state'.summary = state.summary)
    (hseries : state'.alerts.series = state.alerts.series) : tracker.WithinBudget state' := by
  have hworking : tracker.workingState state' = tracker.workingState state := by
    rw [workingState, workingState, hmetrics, hspans, hsummary]
  constructor
  · exact hmetrics ▸ h.metrics
  · exact hsummary ▸ h.summary
  · exact hspans ▸ h.spans
  · exact hworking ▸ h.bytes
  · exact hseries ▸ h.series
  · rw [Tracker.seriesBytes, hseries]
    exact h.seriesBytes

/-! ## The row -/

/-- The state after a commit of the open row, with the history as it was. -/
def afterRow (state : TrackerState) (observed : ℤ) : TrackerState :=
  state.openStep.elim state fun step ↦ tracker.commitState state step observed state.history

/-- The record of the open row. -/
def rowRecords (state : TrackerState) (observed : ℤ) : List TrackerRecord :=
  state.openStep.toList.map fun step ↦ tracker.commitRecord state step observed

/-- The limits a row has to be committed into: those of the history, of the summary, of the working
state without the row and of the rolling series. -/
structure RowFits (state : TrackerState) (observed : ℤ) : Prop where
  history : ∀ record ∈ tracker.rowRecords state observed,
    String.utf8Len ((mergedRecord state.history record.committed).chars tracker.floats) ≤
      tracker.options.maxHistoryBytes
  summary : (tracker.afterRow state observed).summary.size ≤ tracker.options.maxMetrics
  bytes : String.utf8Len (tracker.workingState (tracker.afterRow state observed)).value.print ≤
    tracker.options.maxStateBytes
  series : (tracker.afterRow state observed).alerts.series.size ≤ tracker.options.maxMetrics
  seriesBytes : seriesBytes (tracker.afterRow state observed).alerts ≤
    tracker.options.maxAlertSeriesBytes

variable {tracker} {state : TrackerState} {observed step : ℤ}

theorem afterRow_none (h : state.openStep = none) : tracker.afterRow state observed = state := by
  rw [afterRow, h, Option.elim_none]

theorem afterRow_some (h : state.openStep = some step) :
    tracker.afterRow state observed = tracker.commitState state step observed state.history := by
  rw [afterRow, h, Option.elim_some]

/-- Without an open row nothing has to fit. -/
theorem rowFits_of_closed (h : tracker.WithinBudget state) (hopen : state.openStep = none) :
    tracker.RowFits state observed := by
  constructor
  · simp [rowRecords, hopen]
  · rw [afterRow_none hopen]
    exact h.summary
  · rw [afterRow_none hopen]
    exact h.bytes
  · rw [afterRow_none hopen]
    exact h.series
  · rw [afterRow_none hopen]
    exact h.seriesBytes

/-- What a commit that succeeds leaves. -/
theorem prepareCommit_next {batch : PreparedBatch}
    (h : tracker.prepareCommit ⟨state, [], []⟩ observed = .ok batch) :
    batch.events = tracker.rowRecords state observed ∧
      ∃ history, batch.next = { tracker.afterRow state observed with history } := by
  unfold prepareCommit at h
  cases hopen : state.openStep with
  | none =>
    simp only [hopen, Except.ok.injEq] at h
    rw [← h]
    exact ⟨by simp [rowRecords, hopen], state.history, by rw [afterRow_none hopen]⟩
  | some step =>
    simp only [hopen, bind_eq_ok, exists_unit, pure_eq_ok] at h
    obtain ⟨-, history, -, -, rfl⟩ := h
    exact ⟨by simp [rowRecords, hopen], history, by rw [afterRow_some hopen]; rfl⟩

/-- The open row is committed exactly when it fits. -/
theorem prepareCommit_isOk (h : tracker.WithinBudget state)
    (hstep : state.openStep ≠ some STEP_MAX) :
    (∃ batch, tracker.prepareCommit ⟨state, [], []⟩ observed = .ok batch) ↔
      tracker.RowFits state observed := by
  cases hopen : state.openStep with
  | none =>
    refine ⟨fun _ ↦ rowFits_of_closed h hopen, fun _ ↦ ⟨⟨state, [], []⟩, ?_⟩⟩
    simp only [prepareCommit, hopen]
  | some step =>
    have hrow : tracker.rowRecords state observed = [tracker.commitRecord state step observed] := by
      simp [rowRecords, hopen]
    have hafter : tracker.afterRow state observed =
        tracker.commitState state step observed state.history := afterRow_some hopen
    have hlast : step ≠ STEP_MAX := fun heq ↦ hstep (by rw [hopen, heq])
    simp only [prepareCommit, hopen, bind_eq_ok, exists_unit, reject_ok, pure_eq_ok]
    constructor
    · rintro ⟨batch, -, history, hmerge, hbudget, -⟩
      have hfits := tracker.checkBudget_eq_ok.mp hbudget
      constructor
      · rw [hrow, List.forall_mem_singleton]
        exact mergeHistory_isOk.mp ⟨history, hmerge⟩
      · rw [hafter]
        exact hfits.summary
      · rw [hafter]
        exact hfits.bytes
      · rw [hafter]
        exact hfits.series
      · rw [hafter]
        exact hfits.seriesBytes
    · intro hfits
      have hmerged := hfits.history
      rw [hrow, List.forall_mem_singleton] at hmerged
      obtain ⟨history, hmerge⟩ := mergeHistory_isOk.mpr hmerged
      refine ⟨_, hlast, history, hmerge, tracker.checkBudget_eq_ok.mpr ?_, rfl⟩
      have hsummary := hfits.summary
      have hbytes := hfits.bytes
      have hseries := hfits.series
      have hseriesBytes := hfits.seriesBytes
      rw [hafter] at hsummary hbytes hseries hseriesBytes
      exact ⟨Nat.zero_le _, hsummary, Nat.zero_le _, hbytes, hseries, hseriesBytes⟩

/-- A committed row leaves the state within its budgets. -/
theorem RowFits.withinBudget (h : tracker.WithinBudget state)
    (hfits : tracker.RowFits state observed) :
    tracker.WithinBudget (tracker.afterRow state observed) := by
  cases hopen : state.openStep with
  | none =>
    rw [afterRow_none hopen]
    exact h
  | some step =>
    constructor
    · rw [afterRow_some hopen]
      exact Nat.zero_le _
    · exact hfits.summary
    · rw [afterRow_some hopen]
      exact Nat.zero_le _
    · exact hfits.bytes
    · exact hfits.series
    · exact hfits.seriesBytes

/-! ## The records -/

/-- The event a run ends with. -/
def finalRecord (tracker : Tracker) (state : TrackerState) (observed : ℤ) (failed : Bool) :
    TrackerRecord :=
  eventRecord
    { tracker.afterRow state observed with
      status := if failed then TrackerStatus.failed else .finished } observed [] []

theorem kind_finalRecord (tracker : Tracker) (state : TrackerState) (observed : ℤ) (failed : Bool) :
    (tracker.finalRecord state observed failed).kind = .event := rfl

theorem prepared_flush (h : tracker.WithinBudget state) (hactive : state.finished = false)
    (hstep : state.openStep ≠ some STEP_MAX) (observed : ℤ) :
    ((∃ prepared, tracker.prepared state (.flush observed) = .ok prepared) ↔
        tracker.RowFits state observed) ∧
      ∀ result batch, tracker.prepared state (.flush observed) = .ok (result, batch) →
        batch.events = tracker.rowRecords state observed := by
  rw [← prepareCommit_isOk h hstep]
  simp only [prepared, prepareCall, ensureActive, hactive, bind_eq_ok, exists_unit, reject_ok,
    pure_eq_ok, Bool.false_eq_true, not_false_eq_true, true_and]
  constructor
  · constructor
    · rintro ⟨-, -, ⟨committed, hcommit, -⟩, -, -⟩
      exact ⟨committed, hcommit⟩
    · rintro ⟨committed, hcommit⟩
      refine ⟨_, _, ⟨committed, hcommit, rfl⟩, tracker.checkBudget_eq_ok.mpr ?_, rfl⟩
      have hfits := (prepareCommit_isOk h hstep).mp ⟨committed, hcommit⟩
      obtain ⟨-, history, hnext⟩ := prepareCommit_next hcommit
      rw [hnext]
      exact (hfits.withinBudget h).congr rfl rfl rfl rfl
  · rintro result batch ⟨-, ⟨committed, hcommit, rfl⟩, -, heq⟩
    obtain ⟨-, rfl⟩ := Prod.mk.inj heq
    exact (prepareCommit_next hcommit).1

theorem prepared_finish (h : tracker.WithinBudget state) (hactive : state.finished = false)
    (hstep : state.openStep ≠ some STEP_MAX) (observed : ℤ) (failed : Bool) :
    ((∃ prepared, tracker.prepared state (.finishStatus observed failed) = .ok prepared) ↔
        tracker.RowFits state observed) ∧
      ∀ result batch, tracker.prepared state (.finishStatus observed failed) = .ok (result, batch) →
        batch.events = tracker.rowRecords state observed ++
          [tracker.finalRecord state observed failed] := by
  rw [← prepareCommit_isOk h hstep]
  simp only [prepared, prepareCall, prepareFinish, ensureActive, hactive, bind_eq_ok, exists_unit,
    reject_ok, pure_eq_ok, Bool.false_eq_true, not_false_eq_true, true_and]
  constructor
  · constructor
    · rintro ⟨-, -, ⟨committed, hcommit, -⟩, -, -⟩
      exact ⟨committed, hcommit⟩
    · rintro ⟨committed, hcommit⟩
      refine ⟨_, _, ⟨committed, hcommit, rfl⟩, tracker.checkBudget_eq_ok.mpr ?_, rfl⟩
      have hfits := (prepareCommit_isOk h hstep).mp ⟨committed, hcommit⟩
      obtain ⟨-, history, hnext⟩ := prepareCommit_next hcommit
      dsimp only [prepareEvent]
      rw [hnext]
      exact (hfits.withinBudget h).congr rfl rfl rfl rfl
  · rintro result batch ⟨-, ⟨committed, hcommit, rfl⟩, -, heq⟩
    obtain ⟨-, rfl⟩ := Prod.mk.inj heq
    obtain ⟨hevents, history, hnext⟩ := prepareCommit_next hcommit
    dsimp only [prepareEvent]
    rw [hevents, hnext]
    rfl

/-- The event of a record, as the producer sees it. -/
theorem wellFormed_event {record : TrackerRecord} (hlow : 0 ≤ record.step)
    (hhigh : record.step < 2 ^ 63) (hcommit : record.commit < 2 ^ 64) :
    (record.event tracker.floats tracker.config tracker.options).WellFormed where
  object := rfl
  header := ⟨_, record.trackerHeader_event _ _ _ hlow hhigh hcommit⟩
  axes := by
    show 1 ≤ MAX_SNAPSHOT_AXES
    decide
  named := by
    have hvalid := tracker.validated
    simp only [TrackerOptions.validate, bind_eq_ok, reject_ok, exists_unit, not_or, not_lt,
      gt_iff_lt, Bool.not_eq_true] at hvalid
    obtain ⟨⟨hblank, -, hlength⟩, -⟩ := hvalid
    show ∀ name ∈ [tracker.options.stepAxis], _
    rw [List.forall_mem_singleton, validateText, reject_ok]
    simp [hblank, hlength]
  observed := rfl

/-- The records of a batch have the steps and the numbers a header can hold. -/
theorem Sound.bounds {session : Session} {call : Call} {result : LogResult} {batch : PreparedBatch}
    (h : tracker.Sound session) (hvalid : validateCall call = .ok ())
    (hprepared : tracker.prepared session.state call = .ok (result, batch))
    (hfew : batch.events.length ≤ 3) {record : TrackerRecord} (hmem : record ∈ batch.events) :
    0 ≤ record.step ∧ record.step < 2 ^ 63 ∧ record.commit < 2 ^ 64 := by
  have hinvariant := (prepared_invariant h.state hvalid hprepared).1
  have hin := List.mem_append_right session.records hmem
  obtain ⟨hlow, hhigh⟩ := hinvariant.steps_bound record hin
  have hnumber : record.commit ∈ List.range' 1 (session.records ++ batch.events).length := by
    rw [← hinvariant.numbered]
    exact List.mem_map_of_mem hin
  have hcommit := (List.mem_range'_1.mp hnumber).2
  have hlength := h.producer.ring.length_captured
  have hnext := h.producer.ring.next_le
  have hcaptured := h.captured
  rw [List.length_append] at hcommit
  unfold I64_MAX at hnext
  unfold STEP_MAX at hhigh
  omega

/-! ## Captures -/

theorem transact_isOk {session : Session} {call : Call} {result : LogResult}
    {batch : PreparedBatch} (h : tracker.Sound session)
    (hprepared : tracker.prepared session.state call = .ok (result, batch))
    (hsome : batch.events ≠ []) (now : ℕ → ℤ) :
    (∃ value world, tracker.transact now session.world call = some (.ok value, world)) ↔
      ∃ admitted, tracker.producer.checkBatch now (tracker.eventsOf batch.events)
        session.producer.state = .ok admitted := by
  unfold transact
  rw [show tracker.prepared session.world.state call = .ok (result, batch) from hprepared]
  dsimp only
  rw [if_neg hsome]
  constructor
  · rintro ⟨value, world, htransact⟩
    obtain ⟨⟨captured, producer⟩, hcapture, heq⟩ := Option.map_eq_some_iff.mp htransact
    cases hcheck : tracker.producer.checkBatch now (tracker.eventsOf batch.events)
        session.producer.state with
    | ok admitted => exact ⟨admitted, rfl⟩
    | error error =>
      rw [SnapshotProducer.captureBatch,
        show session.world.producer = session.producer.state from rfl, hcheck] at hcapture
      obtain ⟨rfl, rfl⟩ := Prod.mk.inj (Option.some.inj hcapture)
      simp at heq
  · rintro ⟨⟨prepared, nextSequence⟩, hcheck⟩
    obtain ⟨state', -, hcapture, -⟩ :=
      captureBatch_of_checked h.producer.ring h.producer.unreleased_of_open hcheck
    rw [show session.world.producer = session.producer.state from rfl, hcapture]
    exact ⟨_, _, rfl⟩

/-- The bytes of the observation that is current once the row is committed. -/
def currentBytes (tracker : Tracker) (state : TrackerState) (producer : ProducerState)
    (observed : ℤ) : ℕ :=
  ((tracker.eventsOf (tracker.rowRecords state observed)).head?.map fun event ↦
      weight (tracker.producer.snapshotOf 0 0 event)).getD
    (producer.latestObservation.elim 0 BufferedSnapshot.bytes)

/-- The row can be committed: it fits its budgets, and its snapshot fits the producer. -/
structure FlushFits (tracker : Tracker) (state : TrackerState) (producer : ProducerState)
    (observed : ℤ) : Prop where
  row : tracker.RowFits state observed
  snapshots : ∀ entry ∈ (tracker.eventsOf (tracker.rowRecords state observed)).zipIdx
    producer.nextSequence, tracker.producer.Fits entry.2 entry.1

/-- The run can end: the row can be committed, and the notification fits beside it. -/
structure FinishFits (tracker : Tracker) (state : TrackerState) (producer : ProducerState)
    (observed : ℤ) (failed : Bool) : Prop where
  row : tracker.RowFits state observed
  snapshots : ∀ entry ∈ (tracker.eventsOf (tracker.rowRecords state observed ++
    [tracker.finalRecord state observed failed])).zipIdx producer.nextSequence,
      tracker.producer.Fits entry.2 entry.1
  beside : ∀ event ∈ tracker.eventsOf [tracker.finalRecord state observed failed],
    tracker.currentBytes state producer observed + weight (tracker.producer.snapshotOf 0 0 event) ≤
      tracker.producer.limits.maxBytes

theorem isTrackerEvent_event {record : TrackerRecord} (hlow : 0 ≤ record.step)
    (hhigh : record.step < 2 ^ 63) (hcommit : record.commit < 2 ^ 64) :
    isTrackerEvent (record.event tracker.floats tracker.config tracker.options).state.value =
      .ok (decide (record.kind = .event)) := by
  rw [isTrackerEvent_ok (record.trackerHeader_event _ _ _ hlow hhigh hcommit)]
  rfl

/-- An observation fits beside everything else, since older ones are dropped for it. -/
theorem checkBudget_observation {record : TrackerRecord} (hkind : record.kind = .observation)
    (hbounds : 0 ≤ record.step ∧ record.step < 2 ^ 63 ∧ record.commit < 2 ^ 64)
    (limits : BufferLimits) (latestBytes : ℕ) (rest : List Prepared) :
    Snapshots.checkBudget limits latestBytes (tracker.producer.preparedOf
        (record.event tracker.floats tracker.config tracker.options) :: rest) =
      Snapshots.checkBudget limits (weight (tracker.producer.snapshotOf 0 0
        (record.event tracker.floats tracker.config tracker.options))) rest := by
  have hevent : isTrackerEvent (tracker.producer.preparedOf
      (record.event tracker.floats tracker.config tracker.options)).snapshot.state.value =
      .ok false := by
    refine (isTrackerEvent_event hbounds.1 hbounds.2.1 hbounds.2.2).trans ?_
    rw [hkind]
    rfl
  rw [Snapshots.checkBudget, hevent]
  rfl

theorem checkBudget_event (tracker : Tracker) {record : TrackerRecord} (hkind : record.kind = .event)
    (hbounds : 0 ≤ record.step ∧ record.step < 2 ^ 63 ∧ record.commit < 2 ^ 64)
    (limits : BufferLimits) (latestBytes : ℕ) :
    Snapshots.checkBudget limits latestBytes [tracker.producer.preparedOf
        (record.event tracker.floats tracker.config tracker.options)] = .ok () ↔
      latestBytes + weight (tracker.producer.snapshotOf 0 0
        (record.event tracker.floats tracker.config tracker.options)) ≤ limits.maxBytes := by
  have hevent : isTrackerEvent (tracker.producer.preparedOf
      (record.event tracker.floats tracker.config tracker.options)).snapshot.state.value =
      .ok true := by
    refine (isTrackerEvent_event hbounds.1 hbounds.2.1 hbounds.2.2).trans ?_
    rw [hkind]
    rfl
  have hbytes : weight (tracker.producer.snapshotOf 0 0
      (record.event tracker.floats tracker.config tracker.options)) = (tracker.producer.preparedOf
        (record.event tracker.floats tracker.config tracker.options)).bytes := rfl
  rw [hbytes, Snapshots.checkBudget, hevent]
  dsimp only
  split
  · rename_i hover
    simpa using hover
  · rename_i hfits
    simpa [Snapshots.checkBudget] using hfits

/-! ## Runs -/

/-- What every call keeps: the state is within its budgets, and the end of the run sealed the
producer. -/
structure Kept (tracker : Tracker) (session : Session) : Prop where
  budget : tracker.WithinBudget session.state
  closed : session.state.finished = true → session.producer.state.isSealed = true

theorem transact_kept {session : Session} {call : Call} {now : ℕ → ℤ}
    {result : Except TrackerError LogResult} {world : World} (h : tracker.Kept session)
    (htransact : tracker.transact now session.world call = some (result, world)) :
    tracker.WithinBudget world.state ∧
      (world.state.finished = true → world.producer.isSealed = true) := by
  unfold transact at htransact
  cases hprepared : tracker.prepared session.world.state call with
  | error error =>
    rw [hprepared] at htransact
    obtain ⟨-, rfl⟩ := Prod.mk.inj (Option.some.inj htransact)
    exact ⟨h.budget, h.closed⟩
  | ok prepared =>
    obtain ⟨value, batch⟩ := prepared
    rw [hprepared] at htransact
    have hcommit (producer : ProducerState) :
        tracker.WithinBudget (commit session.world batch producer).state ∧
          ((commit session.world batch producer).state.finished = true →
            (commit session.world batch producer).producer.isSealed = true) := by
      simp only [prepared, bind_eq_ok, exists_unit, pure_eq_ok] at hprepared
      obtain ⟨-, ⟨inner, batch'⟩, -, hbudget, heq⟩ := hprepared
      obtain ⟨-, rfl⟩ := Prod.mk.inj heq
      refine ⟨tracker.checkBudget_eq_ok.mp hbudget, fun hfinished ↦ ?_⟩
      have hnext : batch'.next.finished = true := hfinished
      simp [commit, hnext, sealCaptures]
    dsimp only at htransact
    by_cases hempty : batch.events = []
    · rw [if_pos hempty] at htransact
      obtain ⟨-, rfl⟩ := Prod.mk.inj (Option.some.inj htransact)
      exact hcommit _
    · rw [if_neg hempty] at htransact
      obtain ⟨⟨captured, producer⟩, hcapture, heq⟩ := Option.map_eq_some_iff.mp htransact
      cases captured with
      | ok receipt =>
        obtain ⟨-, rfl⟩ := Prod.mk.inj heq
        exact hcommit producer
      | error error =>
        obtain ⟨-, rfl⟩ := Prod.mk.inj heq
        refine ⟨h.budget, fun hfinished ↦ ?_⟩
        -- A finished tracker prepares nothing.
        simp only [prepared, ensureActive, bind_eq_ok, exists_unit, reject_ok] at hprepared
        exact absurd hfinished hprepared.1

theorem follow_state (tracker : Tracker) (session : Session) (now : ℕ → ℤ) (call : Call)
    (result : Except TrackerError LogResult) (world : World) :
    (tracker.follow session now call result world).state = world.state ∧
      (tracker.follow session now call result world).producer.state = world.producer := by
  cases result <;> exact ⟨rfl, rfl⟩

/-- Nothing opens a producer again. -/
theorem producer_isSealed {producer : SnapshotProducer} {session session' : Snapshots.Session}
    {action : Snapshots.Action} (hsealed : session.state.isSealed = true)
    (hstep : session.step producer action = some session') : session'.state.isSealed = true := by
  cases action with
  | captureBatch now events =>
    obtain ⟨⟨result, state⟩, hcapture, heq⟩ := Option.map_eq_some_iff.mp hstep
    have hcheck : producer.checkBatch now events session.state = .error .isSealed := by
      rw [SnapshotProducer.checkBatch, reject, if_pos hsealed]
      rfl
    rw [SnapshotProducer.captureBatch, hcheck] at hcapture
    obtain ⟨rfl, rfl⟩ := Prod.mk.inj (Option.some.inj hcapture)
    rw [← heq]
    exact hsealed
  | sealCaptures =>
    rw [← Option.some.inj hstep]
    rfl
  | sealAndReleaseHistory =>
    rw [← Option.some.inj hstep]
    rfl

/-- The step lemma: every action keeps the budgets. -/
theorem step_kept {session session' : Session} {action : Action} (h : tracker.Kept session)
    (hstep : tracker.step session action = some session') : tracker.Kept session' := by
  cases action with
  | call now call =>
    obtain ⟨⟨result, world⟩, hcall, rfl⟩ := Option.map_eq_some_iff.mp hstep
    have hworld : tracker.WithinBudget world.state ∧
        (world.state.finished = true → world.producer.isSealed = true) := by
      unfold Tracker.call at hcall
      split at hcall
      · obtain ⟨-, rfl⟩ := Prod.mk.inj (Option.some.inj hcall)
        exact ⟨h.budget, h.closed⟩
      · split at hcall
        · split at hcall
          · obtain ⟨-, rfl⟩ := Prod.mk.inj (Option.some.inj hcall)
            exact ⟨h.budget, h.closed⟩
          · exact transact_kept h hcall
        · exact transact_kept h hcall
    obtain ⟨hstate, hproducer⟩ := tracker.follow_state session now call result world
    constructor
    · rw [hstate]
      exact hworld.1
    · rw [hstate, hproducer]
      exact hworld.2
  | addAlertRule rule =>
    unfold step at hstep
    dsimp only at hstep
    split at hstep
    · rename_i state hadd
      obtain rfl := Option.some.inj hstep
      simp only [addAlertRule, AlertEngine.addRule, bind_eq_ok, exists_unit, pure_eq_ok] at hadd
      obtain ⟨-, alerts, ⟨-, -, expression, -, rfl⟩, rfl⟩ := hadd
      exact ⟨h.budget.congr rfl rfl rfl rfl, h.closed⟩
    · exact Option.some.inj hstep ▸ h
  | removeAlertRule name =>
    unfold step at hstep
    dsimp only at hstep
    split at hstep
    · rename_i removed state hremove
      obtain rfl := Option.some.inj hstep
      simp only [removeAlertRule, bind_eq_ok, exists_unit, pure_eq_ok] at hremove
      obtain ⟨-, heq⟩ := hremove
      obtain ⟨-, rfl⟩ := Prod.mk.inj heq
      exact ⟨h.budget.congr rfl rfl rfl rfl, h.closed⟩
    · exact Option.some.inj hstep ▸ h
  | producer action =>
    obtain ⟨producer, hproducer, rfl⟩ := Option.map_eq_some_iff.mp hstep
    exact ⟨h.budget, fun hfinished ↦ producer_isSealed (h.closed hfinished) hproducer⟩

theorem run_kept {session session' : Session} {actions : List Action} (h : tracker.Kept session)
    (hrun : tracker.run actions session = some session') : tracker.Kept session' :=
  Runs.invariant tracker.Kept (fun h hstep ↦ step_kept h hstep) h hrun

/-- A new tracker is within its budgets. -/
theorem kept_start {producer : SnapshotProducer} {config : Json} {options : TrackerOptions}
    {floats : FloatText} {rules : List AlertRule} {time : ℤ}
    (hnew : Tracker.new producer config options floats rules time = .ok (tracker, state)) :
    tracker.Kept (.start state) := by
  unfold Tracker.new at hnew
  split at hnew
  · simp at hnew
  · simp only [bind_eq_ok, exists_unit, pure_eq_ok] at hnew
    obtain ⟨-, alerts, -, hbudget, heq⟩ := hnew
    obtain ⟨rfl, rfl⟩ := Prod.mk.inj heq
    exact ⟨Tracker.checkBudget_eq_ok _ |>.mp hbudget, by simp [Session.start, initialState]⟩

/-! ## Flush and finish -/

section Calls

variable {session : Session} {call : Call} {now : ℕ → ℤ}

/-- A call that succeeds has prepared its batch. -/
theorem prepared_of_transact {value : LogResult} {world : World}
    (h : tracker.transact now session.world call = some (.ok value, world)) :
    ∃ prepared, tracker.prepared session.state call = .ok prepared := by
  unfold transact at h
  cases hprepared : tracker.prepared session.state call with
  | ok prepared => exact ⟨prepared, rfl⟩
  | error error =>
    rw [show tracker.prepared session.world.state call = .error error from hprepared] at h
    simp at h

/-- A prepared batch of a few records is committed exactly when the producer admits it. -/
theorem transact_admitted (h : tracker.Sound session) (hvalid : validateCall call = .ok ())
    {result : LogResult} {batch : PreparedBatch}
    (hprepared : tracker.prepared session.state call = .ok (result, batch))
    (hsome : batch.events ≠ []) (hfew : batch.events.length ≤ 3)
    (hsealed : session.producer.state.isSealed = false)
    (hspace : session.producer.state.nextSequence + batch.events.length ≤ I64_MAX) :
    (∃ value world, tracker.transact now session.world call = some (.ok value, world)) ↔
      (∀ entry ∈ (tracker.eventsOf batch.events).zipIdx session.producer.state.nextSequence,
        tracker.producer.Fits entry.2 entry.1) ∧
      Snapshots.checkBudget tracker.producer.limits
        (session.producer.state.latestObservation.elim 0 BufferedSnapshot.bytes)
        ((tracker.eventsOf batch.events).map tracker.producer.preparedOf) = .ok () := by
  have hwell : ∀ event ∈ tracker.eventsOf batch.events, event.WellFormed := by
    intro event hevent
    obtain ⟨record, hrecord, rfl⟩ := List.mem_map.mp hevent
    obtain ⟨hlow, hhigh, hcommit⟩ := h.bounds hvalid hprepared hfew hrecord
    exact wellFormed_event hlow hhigh hcommit
  have hlength : (tracker.eventsOf batch.events).length = batch.events.length := by simp [eventsOf]
  rw [transact_isOk h hprepared hsome now]
  exact SnapshotProducer.checkBatch_isOk hwell (by simpa [eventsOf] using hsome) (hlength ▸ hfew)
    now _ hsealed (hlength ▸ hspace)

/-- While captures are open the run has not ended. -/
theorem Kept.active (hkept : tracker.Kept session)
    (hsealed : session.producer.state.isSealed = false) : session.state.finished = false := by
  by_contra hfinished
  rw [Bool.not_eq_false] at hfinished
  rw [hkept.closed hfinished] at hsealed
  exact absurd hsealed (by decide)

/-- A flush succeeds exactly when the row can be committed. -/
theorem flush_isOk (h : tracker.Sound session) (hkept : tracker.Kept session)
    (hsealed : session.producer.state.isSealed = false)
    (hstep : session.state.openStep ≠ some STEP_MAX)
    (hspace : session.producer.state.nextSequence + 1 ≤ I64_MAX) :
    (∃ value world, tracker.call now session.world (.flush observed) = some (.ok value, world)) ↔
      tracker.FlushFits session.state session.producer.state observed := by
  have hactive := hkept.active hsealed
  obtain ⟨hrow, hevents⟩ := prepared_flush hkept.budget hactive hstep observed
  have hcall : tracker.call now session.world (.flush observed) =
      tracker.transact now session.world (.flush observed) := rfl
  rw [hcall]
  by_cases hfits : tracker.RowFits session.state observed
  · obtain ⟨⟨result, batch⟩, hprepared⟩ := hrow.mpr hfits
    have hrecords := hevents result batch hprepared
    have hsplit : tracker.FlushFits session.state session.producer.state observed ↔
        ∀ entry ∈ (tracker.eventsOf batch.events).zipIdx session.producer.state.nextSequence,
          tracker.producer.Fits entry.2 entry.1 := by
      rw [hrecords]
      exact ⟨fun hflush ↦ hflush.snapshots, fun hsnapshots ↦ ⟨hfits, hsnapshots⟩⟩
    rw [hsplit]
    cases hopen : session.state.openStep with
    | none =>
      have hnone : batch.events = [] := by simp [hrecords, rowRecords, hopen]
      refine ⟨fun _ ↦ by simp [hnone, eventsOf], fun _ ↦ ?_⟩
      unfold transact
      rw [show tracker.prepared session.world.state (.flush observed) = .ok (result, batch) from
        hprepared]
      dsimp only
      rw [if_pos hnone]
      exact ⟨_, _, rfl⟩
    | some step =>
      have hone : batch.events = [tracker.commitRecord session.state step observed] := by
        simp [hrecords, rowRecords, hopen]
      have hmem : tracker.commitRecord session.state step observed ∈ batch.events := by simp [hone]
      have hbounds := h.bounds rfl hprepared (by simp [hone]) hmem
      rw [transact_admitted h rfl hprepared (by simp [hone]) (by simp [hone]) hsealed
        (by simpa [hone] using hspace)]
      refine and_iff_left ?_
      rw [hone]
      exact checkBudget_observation rfl hbounds _ _ []
  · refine iff_of_false ?_ fun hflush ↦ hfits hflush.row
    rintro ⟨value, world, htransact⟩
    exact hfits (hrow.mp (prepared_of_transact htransact))

/-- A run ends exactly when the row can be committed and the notification fits beside it. -/
theorem finish_isOk (h : tracker.Sound session) (hkept : tracker.Kept session)
    (hsealed : session.producer.state.isSealed = false)
    (hstep : session.state.openStep ≠ some STEP_MAX) (failed : Bool)
    (hspace : session.producer.state.nextSequence + 2 ≤ I64_MAX) :
    (∃ value world,
        tracker.call now session.world (.finishStatus observed failed) = some (.ok value, world)) ↔
      tracker.FinishFits session.state session.producer.state observed failed := by
  have hactive := hkept.active hsealed
  obtain ⟨hrow, hevents⟩ := prepared_finish hkept.budget hactive hstep observed failed
  have hcall : tracker.call now session.world (.finishStatus observed failed) =
      tracker.transact now session.world (.finishStatus observed failed) := by
    simp [Tracker.call, validateCall, Session.world, hactive]
  rw [hcall]
  by_cases hfits : tracker.RowFits session.state observed
  · obtain ⟨⟨result, batch⟩, hprepared⟩ := hrow.mpr hfits
    have hrecords := hevents result batch hprepared
    have hfew : batch.events.length ≤ 2 := by
      rw [hrecords]
      cases hopen : session.state.openStep <;> simp [rowRecords, hopen]
    have hsome : batch.events ≠ [] := by simp [hrecords]
    have hfinal : tracker.finalRecord session.state observed failed ∈ batch.events := by
      simp [hrecords]
    have hlast := h.bounds rfl hprepared (by omega) hfinal
    have hbudget : Snapshots.checkBudget tracker.producer.limits
        (session.producer.state.latestObservation.elim 0 BufferedSnapshot.bytes)
        ((tracker.eventsOf batch.events).map tracker.producer.preparedOf) = .ok () ↔
        ∀ event ∈ tracker.eventsOf [tracker.finalRecord session.state observed failed],
          tracker.currentBytes session.state session.producer.state observed +
              weight (tracker.producer.snapshotOf 0 0 event) ≤
            tracker.producer.limits.maxBytes := by
      have hbeside := tracker.checkBudget_event
        (tracker.kind_finalRecord session.state observed failed) hlast tracker.producer.limits
        (tracker.currentBytes session.state session.producer.state observed)
      have hsingle : tracker.eventsOf [tracker.finalRecord session.state observed failed] =
          [(tracker.finalRecord session.state observed failed).event tracker.floats tracker.config
            tracker.options] := rfl
      rw [hsingle, List.forall_mem_singleton, ← hbeside, hrecords]
      cases hopen : session.state.openStep with
      | none => simp [eventsOf, currentBytes, rowRecords, hopen]
      | some step =>
        have hmem : tracker.commitRecord session.state step observed ∈ batch.events := by
          simp [hrecords, rowRecords, hopen]
        have hbounds := h.bounds rfl hprepared (by omega) hmem
        have hrecord : tracker.rowRecords session.state observed =
            [tracker.commitRecord session.state step observed] := by simp [rowRecords, hopen]
        rw [hrecord, List.singleton_append, eventsOf, List.map_cons, List.map_cons,
          checkBudget_observation rfl hbounds, currentBytes, hrecord]
        rfl
    rw [transact_admitted h rfl hprepared hsome (by omega) hsealed (by omega), hbudget, hrecords]
    constructor
    · rintro ⟨hsnapshots, hbeside⟩
      exact ⟨hfits, hsnapshots, hbeside⟩
    · exact fun hfinish ↦ ⟨hfinish.snapshots, hfinish.beside⟩
  · refine iff_of_false ?_ fun hfinish ↦ hfits hfinish.row
    rintro ⟨value, world, htransact⟩
    exact hfits (hrow.mp (prepared_of_transact htransact))

end Calls

/-- In every state a run of calls reaches, as long as captures are open, there is sequence space and
the open row is not at the last step: a flush and the end of the run succeed exactly when what they
commit fits the limits of the history, the summary, the working state, the series and the snapshots,
and otherwise they change nothing. -/
theorem open_row_commits {producer : SnapshotProducer} {config : Json} {options : TrackerOptions}
    {floats : FloatText} {rules : List AlertRule} {time : ℤ} {tracker : Tracker}
    {state : TrackerState}
    (hnew : Tracker.new producer config options floats rules time = .ok (tracker, state))
    (actions : List Action) :
    ∃ session, tracker.run actions (.start state) = some session ∧
      (session.producer.state.isSealed = false → session.state.openStep ≠ some STEP_MAX →
        session.producer.state.nextSequence + 2 ≤ I64_MAX →
        ∀ (now : ℕ → ℤ) (observed : ℤ),
          (((∃ value world, tracker.call now session.world (.flush observed) =
                some (.ok value, world)) ↔
              tracker.FlushFits session.state session.producer.state observed) ∧
            ∀ failed, (∃ value world, tracker.call now session.world
                  (.finishStatus observed failed) = some (.ok value, world)) ↔
                tracker.FinishFits session.state session.producer.state observed failed) ∧
          ∀ call, ∃ result world, tracker.call now session.world call = some (result, world) ∧
            ∀ error, result = .error error → world = session.world) := by
  obtain ⟨session, hrun, hsound⟩ := run_sound (start_new hnew) actions
  have hkept := run_kept (kept_start hnew) hrun
  refine ⟨session, hrun, fun hsealed hstep hspace now observed ↦ ⟨⟨?_, fun failed ↦ ?_⟩, fun call ↦ ?_⟩⟩
  · exact flush_isOk hsound hkept hsealed hstep (by omega)
  · exact finish_isOk hsound hkept hsealed hstep failed hspace
  · rcases call_spec hsound now call with ⟨error, hcall⟩ | ⟨value, world, hcall, -⟩
    · exact ⟨_, _, hcall, fun _ _ ↦ rfl⟩
    · exact ⟨_, _, hcall, fun error herror ↦ by simp at herror⟩

section Sample

/-- A tracker that has room for one metric. -/
def narrowOptions : TrackerOptions := { TrackerOptions.default with maxMetrics := 1 }

/-- A call that opens a row, or adds to it, and leaves it open. -/
def sampleOpen (name : String) (observed : ℤ) : Action :=
  .call (fun _ ↦ observed) (.log (.literal [(name, .int 1)]) none (some false) observed)

theorem open_row_commits_sample : ∃ tracker state session,
    Tracker.new sampleProducer (.literal []) narrowOptions AlertEngine.sampleText [] 0 =
        .ok (tracker, state) ∧
      tracker.run [sampleLog ["x"] 1, sampleOpen "x" 2] (.start state) = some session ∧
      session.state.openStep = some 1 ∧
      tracker.FinishFits session.state session.producer.state 3 false := by
  have hsample : ((Tracker.new sampleProducer (.literal []) narrowOptions AlertEngine.sampleText [] 0
      ).toOption.bind fun (tracker, state) ↦
        (tracker.run [sampleLog ["x"] 1, sampleOpen "x" 2] (.start state)).bind fun session ↦
          (tracker.call (fun _ ↦ 3) session.world (.finishStatus 3 false)).map fun finished ↦
            (session.state.openStep, session.producer.state.isSealed,
              session.producer.state.nextSequence, finished.1.toOption.isSome)) =
      some (some 1, false, 1, true) := by decide +kernel
  obtain ⟨⟨tracker, state⟩, hnew, hsample⟩ := Option.bind_eq_some_iff.mp hsample
  obtain ⟨session, hrun, hsample⟩ := Option.bind_eq_some_iff.mp hsample
  obtain ⟨⟨result, world⟩, hcall, hviews⟩ := Option.map_eq_some_iff.mp hsample
  obtain ⟨hopen, hsealed, hnext, hfinished⟩ := by simpa using hviews
  have hnew := toOption_eq_some.mp hnew
  obtain ⟨reached, hreached, hcommits⟩ :=
    open_row_commits hnew [sampleLog ["x"] 1, sampleOpen "x" 2]
  obtain rfl : reached = session := Option.some.inj (hreached.symm.trans hrun)
  refine ⟨tracker, state, reached, hnew, hrun, hopen, ?_⟩
  have hstep : reached.state.openStep ≠ some STEP_MAX := by
    rw [hopen]
    decide
  have hspace : reached.producer.state.nextSequence + 2 ≤ I64_MAX := by
    rw [hnext]
    decide
  obtain ⟨⟨-, hfinish⟩, -⟩ := hcommits hsealed hstep hspace (fun _ ↦ 3) 3
  obtain ⟨value, hvalue⟩ := Option.isSome_iff_exists.mp hfinished
  exact (hfinish false).mp ⟨value, world, by rw [hcall, toOption_eq_some.mp hvalue]⟩

/-- A row that was accepted although the summary has no room for its metric: neither a flush nor the
end of the run can commit it. -/
theorem open_row_rejected : ∃ tracker state session,
    Tracker.new sampleProducer (.literal []) narrowOptions AlertEngine.sampleText [] 0 =
        .ok (tracker, state) ∧
      tracker.run [sampleLog ["x"] 1, sampleOpen "y" 2] (.start state) = some session ∧
      session.state.openMetrics.keys = ["y"] ∧ session.producer.state.isSealed = false ∧
      session.producer.state.nextSequence = 1 ∧
      (tracker.call (fun _ ↦ 3) session.world (.flush 3)).map (fun answer ↦ answer.1.isOk) =
        some false ∧
      (tracker.call (fun _ ↦ 3) session.world (.finishStatus 3 false)).map
        (fun answer ↦ answer.1.isOk) = some false := by
  have hsample : ((Tracker.new sampleProducer (.literal []) narrowOptions AlertEngine.sampleText [] 0
      ).toOption.bind fun (tracker, state) ↦
        (tracker.run [sampleLog ["x"] 1, sampleOpen "y" 2] (.start state)).map fun session ↦
          (session.state.openMetrics.keys, session.producer.state.isSealed,
            session.producer.state.nextSequence,
            (tracker.call (fun _ ↦ 3) session.world (.flush 3)).map (fun answer ↦ answer.1.isOk),
            (tracker.call (fun _ ↦ 3) session.world (.finishStatus 3 false)).map
              (fun answer ↦ answer.1.isOk))) =
      some (["y"], false, 1, some false, some false) := by decide +kernel
  obtain ⟨⟨tracker, state⟩, hnew, hrun⟩ := Option.bind_eq_some_iff.mp hsample
  obtain ⟨session, hrun, hviews⟩ := Option.map_eq_some_iff.mp hrun
  simp only [Prod.mk.injEq] at hviews
  exact ⟨tracker, state, session, toOption_eq_some.mp hnew, hrun, hviews⟩

end Sample

end Tracker

end Rvx.Tracking
