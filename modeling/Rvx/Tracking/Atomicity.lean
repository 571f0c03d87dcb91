import Rvx.Snapshots.History
import Rvx.Tracking.AlertRuns
import Rvx.Tracking.Batches
import Rvx.Tracking.Headers

/-!
# Calls are atomic

Runs of a tracker on a producer that others may use as well.  A call that fails changes nothing,
and a call that succeeds appends its records to the committed ones and to the captured snapshots.
-/

namespace Rvx.Tracking

open Core Check

/-- The state of a tracker and of its producer, with the log of all snapshots the producer captured
and the log of the records of all calls that succeeded. -/
structure Session where
  state : TrackerState
  producer : Snapshots.Session
  records : List TrackerRecord
  sent : List AlertEvent

/-- What changes a tracker or its producer; reads change nothing. -/
inductive Action where
  | call (now : ℕ → ℤ) (call : Tracker.Call)
  | addAlertRule (rule : AlertRule)
  | removeAlertRule (name : String)
  | producer (action : Snapshots.Action)

namespace Session

/-- A new tracker on a new producer. -/
def start (state : TrackerState) : Session := ⟨state, .init, [], []⟩

def world (session : Session) : World := ⟨session.state, session.producer.state, session.sent⟩

end Session

namespace Tracker

/-- The records a call captures and commits when it succeeds. -/
def recordsOf (tracker : Tracker) (state : TrackerState) (call : Call) : List TrackerRecord :=
  match tracker.prepared state call with
  | .ok (_, batch) => batch.events
  | .error _ => []

/-- The session after a call with the given result. -/
def follow (tracker : Tracker) (session : Session) (now : ℕ → ℤ) (call : Call)
    (result : Except TrackerError LogResult) (world : World) : Session :=
  match result with
  | .error _ =>
    { session with
      state := world.state
      producer := { session.producer with state := world.producer }
      sent := world.sent }
  | .ok _ =>
    let records := tracker.recordsOf session.state call
    { state := world.state
      producer := { session.producer with
        state := world.producer
        captured := session.producer.captured ++
          Snapshots.accepted tracker.producer now 0 session.producer.state.nextSequence
            (tracker.eventsOf records) }
      records := session.records ++ records
      sent := world.sent }

def step (tracker : Tracker) (session : Session) : Action → Option Session
  | .call now call =>
    (tracker.call now session.world call).map fun (result, world) ↦
      tracker.follow session now call result world
  | .addAlertRule rule =>
    match addAlertRule session.state rule with
    | .ok state => some { session with state }
    | .error _ => some session
  | .removeAlertRule name =>
    match removeAlertRule session.state name with
    | .ok (_, state) => some { session with state }
    | .error _ => some session
  | .producer action =>
    (session.producer.step tracker.producer action).map fun producer ↦ { session with producer }

def run (tracker : Tracker) (actions : List Action) (session : Session) : Option Session :=
  actions.foldlM tracker.step session

/-! ## One call -/

/-- The invariant of a session: the state follows from the records, the producer from the captured
snapshots, and every record was captured. -/
structure Sound (tracker : Tracker) (session : Session) : Prop where
  state : tracker.Invariant session.records session.state
  producer : session.producer.Invariant tracker.producer
  captured : session.records.length ≤ session.producer.captured.length

variable {tracker : Tracker} {session : Session} {call : Call} {now : ℕ → ℤ}

theorem prepared_invariant {past : List TrackerRecord} {state : TrackerState}
    {batch : PreparedBatch} {result : LogResult} (h : tracker.Invariant past state)
    (hvalid : validateCall call = .ok ())
    (hprepared : tracker.prepared state call = .ok (result, batch)) :
    tracker.Invariant (past ++ batch.events) batch.next ∧ result.committed = batch.events.length := by
  simp only [prepared, bind_eq_ok, exists_unit, pure_eq_ok] at hprepared
  obtain ⟨-, ⟨result', batch'⟩, hcall, -, heq⟩ := hprepared
  obtain ⟨rfl, rfl⟩ := Prod.mk.inj heq
  have hpast : tracker.Prepares past ⟨state, [], []⟩ := by simpa [Prepares] using h
  exact ⟨prepareCall_prepares hpast hvalid hcall, rfl⟩

/-- Sealing keeps the session invariant of the producer. -/
theorem commit_producer {producer : Snapshots.Session} (batch : PreparedBatch)
    (h : producer.Invariant tracker.producer) (world : World) :
    ({ producer with state := (commit world batch producer.state).producer } :
      Snapshots.Session).Invariant tracker.producer := by
  unfold commit
  dsimp only
  split
  · obtain ⟨sealed, hstep, hinvariant, -⟩ := Snapshots.Session.step_invariant h .sealCaptures
    rw [Snapshots.Session.step, Option.some.injEq] at hstep
    exact hstep ▸ hinvariant
  · exact h

/-- The snapshots of an accepted batch hold the states of its events. -/
theorem map_state_accepted (producer : Snapshots.SnapshotProducer) (index sequence : ℕ)
    (events : List Snapshots.SnapshotEvent) :
    (Snapshots.accepted producer now index sequence events).map StateSnapshot.state =
      events.map Snapshots.SnapshotEvent.state := by
  induction events generalizing index sequence with
  | nil => rfl
  | cons event rest ih =>
    rw [Snapshots.accepted, List.map_cons, ih, List.map_cons]
    rfl

theorem length_accepted (producer : Snapshots.SnapshotProducer) (index sequence : ℕ)
    (events : List Snapshots.SnapshotEvent) :
    (Snapshots.accepted producer now index sequence events).length = events.length := by
  simpa using congrArg List.length (map_state_accepted producer index sequence events)

/-- What a call that succeeds does to the session. -/
structure Committed (tracker : Tracker) (session : Session) (now : ℕ → ℤ) (value : LogResult)
    (records : List TrackerRecord) (session' : Session) : Prop where
  appended : session'.records = session.records ++ records
  captured : session'.producer.captured = session.producer.captured ++
    Snapshots.accepted tracker.producer now 0 session.producer.state.nextSequence
      (tracker.eventsOf records)
  committed : value.committed = records.length
  sound : tracker.Sound session'

theorem transact_spec (h : tracker.Sound session) (now : ℕ → ℤ)
    (hvalid : validateCall call = .ok ()) :
    (∃ error, tracker.transact now session.world call = some (.error error, session.world)) ∨
      ∃ value world, tracker.transact now session.world call = some (.ok value, world) ∧
        tracker.Committed session now value (tracker.recordsOf session.state call)
          (tracker.follow session now call (.ok value) world) := by
  unfold transact
  cases hprepared : tracker.prepared session.world.state call with
  | error error => exact Or.inl ⟨error, rfl⟩
  | ok prepared =>
    obtain ⟨result, batch⟩ := prepared
    have hrecords : tracker.recordsOf session.state call = batch.events := by
      rw [recordsOf, show tracker.prepared session.state call = .ok (result, batch) from hprepared]
    obtain ⟨hstate, hcommitted⟩ := prepared_invariant h.state hvalid hprepared
    dsimp only
    by_cases hempty : batch.events = []
    · rw [if_pos hempty]
      refine Or.inr ⟨result, _, rfl, ?_⟩
      rw [hrecords]
      rw [hempty, List.append_nil] at hstate
      refine ⟨by rw [follow, hrecords], by rw [follow, hrecords], hcommitted, ?_⟩
      have hproducer := commit_producer batch h.producer session.world
      rw [follow, hrecords, hempty]
      simp only [eventsOf, List.map_nil, Snapshots.accepted, List.append_nil]
      exact ⟨hstate, hproducer, h.captured⟩
    · rw [if_neg hempty]
      rcases Snapshots.captureBatch_spec now (tracker.eventsOf batch.events) h.producer.ring
          h.producer.unreleased_of_open with
        ⟨error, hcapture⟩ | ⟨receipt, producer, hcapture, -⟩
      · left
        refine ⟨.producer error, ?_⟩
        rw [show session.world.producer = session.producer.state from rfl, hcapture]
        rfl
      · right
        refine ⟨{ result with capture := some receipt }, commit session.world batch producer, ?_, ?_⟩
        · rw [show session.world.producer = session.producer.state from rfl, hcapture]
          rfl
        · rw [hrecords]
          refine ⟨by rw [follow, hrecords], by rw [follow, hrecords], hcommitted, ?_⟩
          obtain ⟨captured, hstep, hcaptured, -⟩ := Snapshots.Session.step_invariant h.producer
            (.captureBatch now (tracker.eventsOf batch.events))
          simp only [Snapshots.Session.step, hcapture, Option.map_some, Option.some.injEq] at hstep
          have hproducer := commit_producer batch hcaptured session.world
          rw [follow, hrecords]
          subst hstep
          refine ⟨hstate, hproducer, ?_⟩
          simp [length_accepted, eventsOf, h.captured]

/-- A call returns; it fails and changes nothing, or its records are captured and committed. -/
theorem call_spec (h : tracker.Sound session) (now : ℕ → ℤ) (call : Call) :
    (∃ error, tracker.call now session.world call = some (.error error, session.world)) ∨
      ∃ value world, tracker.call now session.world call = some (.ok value, world) ∧
        tracker.Committed session now value (tracker.recordsOf session.state call)
          (tracker.follow session now call (.ok value) world) := by
  unfold Tracker.call
  cases hvalid : validateCall call with
  | error error => exact Or.inl ⟨error, rfl⟩
  | ok checked =>
    have htransact := transact_spec h now hvalid
    dsimp only
    split
    · rename_i observed failed
      by_cases hfinished : session.world.state.finished = true
      · rw [if_pos hfinished]
        refine Or.inr ⟨_, _, rfl, ?_⟩
        have hrecords : tracker.recordsOf session.state (.finishStatus observed failed) = [] := by
          have hfinished' : session.state.finished = true := hfinished
          have hactive : ensureActive session.state = .error .finished := by
            rw [ensureActive, reject, if_pos hfinished']
          rw [recordsOf, prepared, hactive]
          rfl
        rw [hrecords]
        have hsame : tracker.follow session now (.finishStatus observed failed)
            (.ok (accepted session.world.state.lastCommittedStep)) session.world = session := by
          rw [follow, hrecords]
          simp [eventsOf, Snapshots.accepted, Session.world]
        rw [hsame]
        exact ⟨by simp, by simp [eventsOf, Snapshots.accepted], rfl, h⟩
      · rw [if_neg hfinished]
        exact htransact
    · exact htransact

/-! ## Runs -/

/-- Every action returns and keeps the session sound. -/
theorem step_sound (h : tracker.Sound session) (action : Action) :
    ∃ session', tracker.step session action = some session' ∧ tracker.Sound session' := by
  cases action with
  | call now call =>
    rcases call_spec h now call with ⟨error, hcall⟩ | ⟨value, world, hcall, hcommitted⟩
    · exact ⟨session, by rw [step, hcall]; rfl, h⟩
    · exact ⟨_, by rw [step, hcall]; rfl, hcommitted.sound⟩
  | addAlertRule rule =>
    unfold step
    dsimp only
    split
    · rename_i state hadd
      simp only [addAlertRule, bind_eq_ok, exists_unit, pure_eq_ok] at hadd
      obtain ⟨-, alerts, -, rfl⟩ := hadd
      exact ⟨_, rfl, Invariant.congr h.state rfl rfl rfl rfl rfl rfl, h.producer, h.captured⟩
    · exact ⟨session, rfl, h⟩
  | removeAlertRule name =>
    unfold step
    dsimp only
    split
    · rename_i removed state hremove
      simp only [removeAlertRule, bind_eq_ok, exists_unit, pure_eq_ok] at hremove
      obtain ⟨-, heq⟩ := hremove
      obtain ⟨-, rfl⟩ := Prod.mk.inj heq
      exact ⟨_, rfl, Invariant.congr h.state rfl rfl rfl rfl rfl rfl, h.producer, h.captured⟩
    · exact ⟨session, rfl, h⟩
  | producer action =>
    obtain ⟨producer, hstep, hproducer, -⟩ := Snapshots.Session.step_invariant h.producer action
    have hgrows := (Snapshots.Session.step_grows h.producer hstep).1.length_le
    exact ⟨{ session with producer }, by rw [step, hstep]; rfl, h.state, hproducer,
      le_trans h.captured hgrows⟩

/-- A new tracker on a new producer is sound. -/
theorem start_new {producer : Snapshots.SnapshotProducer} {config : Json}
    {options : TrackerOptions} {floats : FloatText} {rules : List AlertRule} {time : ℤ}
    {state : TrackerState}
    (hnew : Tracker.new producer config options floats rules time = .ok (tracker, state)) :
    tracker.Sound (.start state) := by
  unfold Tracker.new at hnew
  split at hnew
  · simp at hnew
  · simp only [bind_eq_ok, exists_unit, pure_eq_ok] at hnew
    obtain ⟨-, alerts, -, -, heq⟩ := hnew
    obtain ⟨-, rfl⟩ := Prod.mk.inj heq
    exact ⟨invariant_init alerts, Snapshots.Session.invariant_init tracker.producer, Nat.zero_le _⟩

/-- Every run returns and ends in a sound session. -/
theorem run_sound (h : tracker.Sound session) (actions : List Action) :
    ∃ session', tracker.run actions session = some session' ∧ tracker.Sound session' := by
  induction actions generalizing session with
  | nil => exact ⟨session, rfl, h⟩
  | cons action rest ih =>
    obtain ⟨middle, hstep, hmiddle⟩ := step_sound h action
    obtain ⟨session', hrest, hsound⟩ := ih hmiddle
    exact ⟨session', by simp [run, hstep, ← hrest], hsound⟩

/-- No one but the tracker captures into its producer. -/
def Exclusive (actions : List Action) : Prop :=
  ∀ now events, Action.producer (.captureBatch now events) ∉ actions

/-- The captured snapshots hold the states of the records, in order. -/
def Mirrors (tracker : Tracker) (session : Session) : Prop :=
  session.producer.captured.map StateSnapshot.state =
    (tracker.eventsOf session.records).map Snapshots.SnapshotEvent.state

theorem step_mirrors {session' : Session} (h : tracker.Sound session)
    (hmirrors : tracker.Mirrors session) {action : Action}
    (hexclusive : ∀ now events, action ≠ .producer (.captureBatch now events))
    (hstep : tracker.step session action = some session') : tracker.Mirrors session' := by
  cases action with
  | call now call =>
    rcases call_spec h now call with ⟨error, hcall⟩ | ⟨value, world, hcall, hcommitted⟩
    · rw [step, hcall, Option.map_some, Option.some.injEq] at hstep
      exact hstep ▸ hmirrors
    · rw [step, hcall, Option.map_some, Option.some.injEq] at hstep
      rw [← hstep, Mirrors, hcommitted.captured, hcommitted.appended, List.map_append,
        map_state_accepted, hmirrors, eventsOf, eventsOf, eventsOf, List.map_append,
        List.map_append]
  | addAlertRule rule =>
    unfold step at hstep
    dsimp only at hstep
    split at hstep <;> exact Option.some.inj hstep ▸ hmirrors
  | removeAlertRule name =>
    unfold step at hstep
    dsimp only at hstep
    split at hstep <;> exact Option.some.inj hstep ▸ hmirrors
  | producer action =>
    obtain ⟨producer, hproducer, rfl⟩ := Option.map_eq_some_iff.mp hstep
    have hcaptured : producer.captured = session.producer.captured := by
      cases action with
      | captureBatch now events => exact absurd rfl (hexclusive now events)
      | sealCaptures => exact Option.some.inj hproducer ▸ rfl
      | sealAndReleaseHistory => exact Option.some.inj hproducer ▸ rfl
    rw [Mirrors, hcaptured]
    exact hmirrors

theorem run_mirrors {actions : List Action} {session' : Session} (h : tracker.Sound session)
    (hmirrors : tracker.Mirrors session) (hexclusive : Exclusive actions)
    (hrun : tracker.run actions session = some session') : tracker.Mirrors session' := by
  induction actions generalizing session with
  | nil => exact Option.some.inj hrun ▸ hmirrors
  | cons action rest ih =>
    obtain ⟨middle, hstep, hmiddle⟩ := step_sound h action
    have hrest : tracker.run rest middle = some session' := by simpa [run, hstep] using hrun
    have hfirst : ∀ now events, action ≠ .producer (.captureBatch now events) :=
      fun now events heq ↦ hexclusive now events (heq ▸ List.mem_cons_self)
    exact ih hmiddle (step_mirrors h hmirrors hfirst hstep)
      (fun now events hmem ↦ hexclusive now events (List.mem_cons_of_mem _ hmem)) hrest

/-- The commit number a reader finds in a captured snapshot. -/
def commitNumber (snapshot : StateSnapshot) : Option ℕ :=
  (trackerHeader snapshot.state.value).toOption.join.map TrackerHeader.commit

/-- The captured records are numbered by their commits. -/
theorem commitNumbers (h : tracker.Sound session) (hmirrors : tracker.Mirrors session) :
    session.producer.captured.map commitNumber =
      (List.range' 1 session.records.length).map some := by
  have hlength : session.producer.captured.length ≤ I64_MAX := by
    rw [h.producer.ring.length_captured]
    exact h.producer.ring.next_le
  have hcommits (record : TrackerRecord) (hmem : record ∈ session.records) :
      record.commit < 2 ^ 64 := by
    have hin : record.commit ∈ List.range' 1 session.records.length := by
      rw [← h.state.numbered]
      exact List.mem_map_of_mem hmem
    have hbound := (List.mem_range'_1.mp hin).2
    have hcaptured := h.captured
    unfold I64_MAX at hlength
    omega
  have hnumber (record : TrackerRecord) (hmem : record ∈ session.records) :
      (trackerHeader (record.event tracker.floats tracker.config tracker.options).state.value
        ).toOption.join.map TrackerHeader.commit = some record.commit := by
    obtain ⟨hlow, hhigh⟩ := h.state.steps_bound record hmem
    have hstep : record.step < 2 ^ 63 := by
      unfold STEP_MAX at hhigh
      omega
    rw [TrackerRecord.trackerHeader_event _ _ _ hlow hstep (hcommits record hmem)]
    rfl
  calc
    _ = (session.producer.captured.map StateSnapshot.state).map fun state ↦
        (trackerHeader state.value).toOption.join.map TrackerHeader.commit := by
      rw [List.map_map]
      rfl
    _ = session.records.map fun record ↦ some record.commit := by
      rw [hmirrors, eventsOf, List.map_map, List.map_map]
      exact List.map_congr_left hnumber
    _ = _ := by
      rw [← h.state.numbered, List.map_map]
      rfl

/-- In every state a run of a tracker reaches: commits are numbered from one on without a gap; a
call that fails leaves the tracker and its producer as they were; a call that succeeds captures
exactly the records it commits, in order; and while only the tracker captures, the captured
snapshots are the committed records and carry their numbers. -/
theorem calls_atomic {producer : Snapshots.SnapshotProducer} {config : Json}
    {options : TrackerOptions} {floats : FloatText} {rules : List AlertRule} {time : ℤ}
    {tracker : Tracker} {state : TrackerState}
    (hnew : Tracker.new producer config options floats rules time = .ok (tracker, state))
    (actions : List Action) :
    ∃ session, tracker.run actions (.start state) = some session ∧
      session.state.commits = session.records.length ∧
      session.records.map TrackerRecord.commit = List.range' 1 session.records.length ∧
      (∀ now call, ∃ result world, tracker.call now session.world call = some (result, world) ∧
        (∀ error, result = .error error → world = session.world) ∧
        ∀ value, result = .ok value →
          tracker.Committed session now value (tracker.recordsOf session.state call)
            (tracker.follow session now call result world)) ∧
      (Exclusive actions →
        session.producer.captured.map StateSnapshot.state =
            (tracker.eventsOf session.records).map Snapshots.SnapshotEvent.state ∧
          session.producer.captured.map commitNumber =
            (List.range' 1 session.records.length).map some) := by
  have hstart := start_new hnew
  obtain ⟨session, hrun, hsound⟩ := run_sound hstart actions
  refine ⟨session, hrun, hsound.state.commits, hsound.state.numbered, ?_, ?_⟩
  · intro now call
    rcases call_spec hsound now call with ⟨error, hcall⟩ | ⟨value, world, hcall, hcommitted⟩
    · exact ⟨_, _, hcall, fun _ _ ↦ rfl, fun value hvalue ↦ by simp at hvalue⟩
    · refine ⟨_, _, hcall, fun error herror ↦ by simp at herror, fun other hother ↦ ?_⟩
      rw [Except.ok.injEq] at hother
      exact hother ▸ hcommitted
  · intro hexclusive
    have hmirrors := run_mirrors hstart rfl hexclusive hrun
    exact ⟨hmirrors, commitNumbers hsound hmirrors⟩

section Sample

def sampleDescriptor : SnapshotDescriptor :=
  ⟨1, "session-1", "project-1", "experiment-1", "run-1", "attempt-1", "learner", none, .empty, 1⟩

def sampleProducer : Snapshots.SnapshotProducer := ⟨sampleDescriptor, ⟨4, 9000⟩, by decide, by rfl⟩

def sampleLog (names : List String) (observed : ℤ) : Action :=
  .call (fun _ ↦ observed)
    (.log (.literal (names.map fun name ↦ (name, .int 1))) none none observed)

/-- A commit, a commit that is too large for the producer, and the end. -/
def sampleActions : List Action :=
  [sampleLog ["loss"] 100,
   sampleLog ["a", "b", "c", "d", "e", "f", "g", "h", "i", "j", "k", "l", "m", "n", "o", "p"] 101,
   .call (fun _ ↦ 102) (.finishStatus 102 false)]

theorem calls_atomic_sample : ∃ tracker state session,
    Tracker.new sampleProducer (.literal []) .default AlertEngine.sampleText [] 0 =
        .ok (tracker, state) ∧
      tracker.run sampleActions (.start state) = some session ∧
      session.state.summary.keys = ["loss"] ∧
      session.producer.captured.map commitNumber = [some 1, some 2] := by
  have hsample : ((Tracker.new sampleProducer (.literal []) .default AlertEngine.sampleText [] 0
      ).toOption.bind fun (tracker, state) ↦ (tracker.run sampleActions (.start state)).map
        fun session ↦ (session.state.summary.keys, session.records.length)) =
      some (["loss"], 2) := by decide +kernel
  obtain ⟨⟨tracker, state⟩, hnew, hrun⟩ := Option.bind_eq_some_iff.mp hsample
  obtain ⟨session, hrun, hviews⟩ := Option.map_eq_some_iff.mp hrun
  obtain ⟨hkeys, hrecords⟩ := Prod.mk.inj hviews
  have hnew := toOption_eq_some.mp hnew
  obtain ⟨reached, hreached, -, -, -, hmirrors⟩ := calls_atomic hnew sampleActions
  obtain rfl : reached = session := Option.some.inj (hreached.symm.trans hrun)
  have hexclusive : Exclusive sampleActions := by simp [Exclusive, sampleActions, sampleLog]
  refine ⟨tracker, state, reached, hnew, hrun, hkeys, ?_⟩
  rw [(hmirrors hexclusive).2, hrecords]
  rfl

end Sample

end Tracker

end Rvx.Tracking
