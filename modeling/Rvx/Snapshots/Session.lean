import Rvx.Snapshots.ProducerInvariant

/-!
# Runs of a producer

A run is any list of captures, seals and releases; reads do not change the state.  Every run has a
result, since no eviction loop spins, and keeps the session invariant.
-/

namespace Rvx.Snapshots

open Core Check

/-- An operation that changes a producer. -/
inductive Action where
  | captureBatch (now : ℕ → ℤ) (events : List SnapshotEvent)
  | sealCaptures
  | sealAndReleaseHistory

/-- A producer's state, the log of all snapshots it accepted, and whether history was released. -/
structure Session where
  state : ProducerState
  captured : List StateSnapshot
  released : Bool

namespace Session

def init : Session := ⟨.init, [], false⟩

/-- One operation; there is no next session when a capture never returns. -/
def step (producer : SnapshotProducer) (session : Session) : Action → Option Session
  | .captureBatch now events =>
    (producer.captureBatch now events session.state).map fun (result, state) ↦
      match result with
      | .ok _ =>
        { session with
          state
          captured := session.captured ++
            accepted producer now 0 session.state.nextSequence events }
      | .error _ => { session with state }
  | .sealCaptures => some { session with state := (Snapshots.sealCaptures session.state).2 }
  | .sealAndReleaseHistory =>
    some { session with
      state := (Snapshots.sealAndReleaseHistory session.state).2, released := true }

def run (producer : SnapshotProducer) (actions : List Action) : Option Session :=
  actions.foldlM (step producer) init

/-- The session invariant. -/
structure Invariant (producer : SnapshotProducer) (session : Session) : Prop where
  ring : Ring producer session.state.nextSequence session.captured session.state
  unreleased : session.released = false →
    Unreleased session.state.nextSequence session.captured session.state
  released : session.released = true →
    session.state.isSealed = true ∧ session.state.snapshots = []

end Session

variable {producer : SnapshotProducer}

/-- What admission establishes: the prepared batch is sound, in range and within the budget. -/
theorem checkBatch_spec {now : ℕ → ℤ} {events : List SnapshotEvent} {state : ProducerState}
    {prepared : List Prepared} {nextSequence : ℕ}
    (h : producer.checkBatch now events state = .ok (prepared, nextSequence)) :
    state.isSealed = false ∧ (∀ one ∈ prepared, one.Sound producer) ∧
      prepared.length = events.length ∧ events ≠ [] ∧
      numbered state.nextSequence prepared = accepted producer now 0 state.nextSequence events ∧
      nextSequence = state.nextSequence + prepared.length ∧ nextSequence ≤ I64_MAX ∧
      checkSequences state.nextSequence prepared = .ok () ∧
      checkBudget producer.limits (state.latestObservation.elim 0 BufferedSnapshot.bytes)
        prepared = .ok () := by
  simp only [SnapshotProducer.checkBatch, bind_eq_ok, exists_unit, reject_ok, pure_eq_ok,
    Prod.mk.injEq, not_or, not_lt, gt_iff_lt, Bool.not_eq_true] at h
  obtain ⟨hsealed, ⟨hne, -⟩, others, hothers, hrange, hsequences, hbudget, rfl, rfl⟩ := h
  obtain ⟨hsound, hlength, hnumbered⟩ := prepareAll_spec hothers
  exact ⟨hsealed, hsound, hlength, hne, hnumbered _, rfl, hrange, hsequences, hbudget⟩

/-- Once a batch is admitted every eviction loop ends and no step of the insertion fails. -/
theorem captureBatch_of_checked {now : ℕ → ℤ} {events : List SnapshotEvent}
    {state : ProducerState} {captured : List StateSnapshot} {prepared : List Prepared}
    {nextSequence : ℕ} (hring : Ring producer state.nextSequence captured state)
    (hopen : state.isSealed = false → Unreleased state.nextSequence captured state)
    (hcheck : producer.checkBatch now events state = .ok (prepared, nextSequence)) :
    ∃ state', insertAll producer.limits state.nextSequence state prepared = some (.ok (), state') ∧
      producer.captureBatch now events state =
        some (.ok ⟨state.nextSequence, nextSequence, prepared.length, state'.droppedSnapshots⟩,
          { state' with nextSequence }) ∧
      state.isSealed = false ∧ nextSequence = state.nextSequence + events.length ∧
      prepared.length = events.length ∧
      Ring producer nextSequence (captured ++ accepted producer now 0 state.nextSequence events)
        { state' with nextSequence } ∧
      Unreleased nextSequence (captured ++ accepted producer now 0 state.nextSequence events)
        { state' with nextSequence } ∧
      state.droppedSnapshots ≤ state'.droppedSnapshots := by
  obtain ⟨hsealed, hsound, hlength, -, hnumbered, hnext, hrange, hsequences, hbudget⟩ :=
    checkBatch_spec hcheck
  have hvalid := checkSequences_spec hsound (by omega) hsequences
  obtain ⟨state', hinsert, hring', hopen', hdropped⟩ := insertAll_spec hring (hopen hsealed) hsound
    (fun snapshot hmem ↦ (hvalid snapshot hmem).1) hbudget
  rw [hnumbered, ← hnext] at hring' hopen'
  refine ⟨state', hinsert, by simp [SnapshotProducer.captureBatch, hcheck, hinsert], hsealed,
    by rw [hnext, hlength], hlength, ?_, ?_, hdropped⟩
  · exact ⟨hring'.captured_sequences, hring'.captured_valid, hring'.length_le, hring'.retained,
      hring'.accounted, hring'.bytes, hring'.count, hring'.budget⟩
  · exact ⟨hopen'.dropped, hopen'.newest, hopen'.latest, hopen'.latest_accounted⟩

/-- A capture returns; it inserts the whole batch or changes nothing. -/
theorem captureBatch_spec (now : ℕ → ℤ) (events : List SnapshotEvent) {state : ProducerState}
    {captured : List StateSnapshot} (hring : Ring producer state.nextSequence captured state)
    (hopen : state.isSealed = false → Unreleased state.nextSequence captured state) :
    (∃ error, producer.captureBatch now events state = some (.error error, state)) ∨
      ∃ receipt state', producer.captureBatch now events state = some (.ok receipt, state') ∧
        state.isSealed = false ∧ state'.nextSequence = state.nextSequence + events.length ∧
        Ring producer state'.nextSequence
          (captured ++ accepted producer now 0 state.nextSequence events) state' ∧
        Unreleased state'.nextSequence
          (captured ++ accepted producer now 0 state.nextSequence events) state' ∧
        state.droppedSnapshots ≤ state'.droppedSnapshots := by
  cases hcheck : producer.checkBatch now events state with
  | error error => exact Or.inl ⟨error, by simp [SnapshotProducer.captureBatch, hcheck]⟩
  | ok admitted =>
    obtain ⟨prepared, nextSequence⟩ := admitted
    obtain ⟨state', -, hcapture, hsealed, hnext, -, hring', hopen', hdropped⟩ :=
      captureBatch_of_checked hring hopen hcheck
    exact Or.inr ⟨_, _, hcapture, hsealed, hnext, hring', hopen', hdropped⟩

namespace Session

theorem invariant_init (producer : SnapshotProducer) : init.Invariant producer where
  ring :=
    { captured_sequences := rfl
      captured_valid := by simp [init]
      length_le := Nat.le_refl 0
      retained := rfl
      accounted := by simp [init, ProducerState.init]
      bytes := rfl
      count := Nat.zero_le _
      budget := Nat.zero_le _ }
  unreleased := fun _ ↦
    { dropped := rfl
      newest := by simp [init, ProducerState.init]
      latest := rfl
      latest_accounted := by simp [init, ProducerState.init] }
  released := by simp [init]

/-- Captures are open only while history was not released. -/
theorem Invariant.unreleased_of_open {session : Session} (h : session.Invariant producer)
    (hsealed : session.state.isSealed = false) :
    Unreleased session.state.nextSequence session.captured session.state := by
  refine h.unreleased ?_
  by_contra hreleased
  have hcontra := (h.released (by simpa using hreleased)).1
  rw [hsealed] at hcontra
  exact absurd hcontra (by decide)

/-- Every operation returns and keeps the invariant. -/
theorem step_invariant {session : Session} (h : session.Invariant producer) (action : Action) :
    ∃ session', session.step producer action = some session' ∧ session'.Invariant producer ∧
      session'.released =
        (session.released || decide (action matches .sealAndReleaseHistory)) := by
  cases action with
  | captureBatch now events =>
    rcases captureBatch_spec now events h.ring h.unreleased_of_open with
      ⟨error, hcapture⟩ | ⟨receipt, state', hcapture, hsealed, -, hring, hopen', -⟩
    · exact ⟨session, by simp [step, hcapture], h, by simp⟩
    · refine ⟨{ session with
          state := state'
          captured := session.captured ++
            accepted producer now 0 session.state.nextSequence events },
        by simp only [step, hcapture, Option.map_some], ⟨hring, fun _ ↦ hopen', ?_⟩, by simp⟩
      intro hreleased
      have hcontra := (h.released hreleased).1
      rw [hsealed] at hcontra
      exact absurd hcontra (by decide)
  | sealCaptures =>
    exact ⟨_, rfl,
      ⟨⟨h.ring.captured_sequences, h.ring.captured_valid, h.ring.length_le, h.ring.retained,
          h.ring.accounted, h.ring.bytes, h.ring.count, h.ring.budget⟩,
        fun hreleased ↦ ⟨(h.unreleased hreleased).dropped, (h.unreleased hreleased).newest,
          (h.unreleased hreleased).latest, (h.unreleased hreleased).latest_accounted⟩,
        fun hreleased ↦ ⟨rfl, (h.released hreleased).2⟩⟩, by simp⟩
  | sealAndReleaseHistory =>
    have hlog := h.ring.length_captured
    refine ⟨_, rfl, ⟨⟨h.ring.captured_sequences, h.ring.captured_valid, Nat.zero_le _, ?_, ?_, rfl,
      Nat.zero_le _, Nat.zero_le _⟩, ?_, ?_⟩, by simp⟩
    · simp [Snapshots.sealAndReleaseHistory, ← hlog]
    · simp [Snapshots.sealAndReleaseHistory]
    · simp
    · exact fun _ ↦ ⟨rfl, rfl⟩

/-- An operation adds to the log, and what is no longer retained never comes back. -/
theorem step_grows {session session' : Session} {action : Action} (h : session.Invariant producer)
    (hstep : session.step producer action = some session') :
    session.captured <+: session'.captured ∧
      oldestSequence session.state ≤ oldestSequence session'.state := by
  obtain ⟨_, heq, h', -⟩ := step_invariant h action
  obtain rfl := Option.some.inj (hstep.symm.trans heq)
  have hoc := oldestSequence_eq h.ring rfl
  have hoc' := oldestSequence_eq h'.ring rfl
  cases action with
  | captureBatch now events =>
    rcases captureBatch_spec now events h.ring h.unreleased_of_open with
      ⟨error, hcapture⟩ | ⟨receipt, state', hcapture, hsealed, -, -, hopen', hdropped⟩
    · simp only [step, hcapture, Option.map_some, Option.some.injEq] at hstep
      rw [← hstep]
      exact ⟨List.prefix_rfl, le_rfl⟩
    · simp only [step, hcapture, Option.map_some, Option.some.injEq] at hstep
      have hopen := h.unreleased_of_open hsealed
      rw [← hstep] at hoc' ⊢
      refine ⟨List.prefix_append _ _, ?_⟩
      have hcount := hopen.dropped
      have hcount' := hopen'.dropped
      dsimp only at hoc' ⊢
      omega
  | sealCaptures =>
    simp only [step, Option.some.injEq] at hstep
    rw [← hstep]
    exact ⟨List.prefix_rfl, le_rfl⟩
  | sealAndReleaseHistory =>
    simp only [step, Option.some.injEq] at hstep
    rw [← hstep] at hoc' ⊢
    refine ⟨List.prefix_rfl, ?_⟩
    simp only [Snapshots.sealAndReleaseHistory, List.length_nil] at hoc' ⊢
    omega

/-- Every run returns and keeps the invariant. -/
theorem run_invariant (producer : SnapshotProducer) (actions : List Action) :
    ∃ session, run producer actions = some session ∧ session.Invariant producer ∧
      session.released = actions.any fun action ↦ action matches .sealAndReleaseHistory := by
  have hrun : ∀ {start : Session}, start.Invariant producer →
      ∃ session, actions.foldlM (step producer) start = some session ∧
        session.Invariant producer ∧ session.released =
          (start.released || actions.any fun action ↦ action matches .sealAndReleaseHistory) := by
    induction actions with
    | nil => exact fun {start} h ↦ ⟨start, rfl, h, by simp⟩
    | cons action rest ih =>
      intro start h
      obtain ⟨middle, hstep, hmiddle, hflag⟩ := step_invariant h action
      obtain ⟨session, hrest, hinvariant, hflag'⟩ := ih hmiddle
      refine ⟨session, by simp [hstep, hrest], hinvariant, ?_⟩
      rw [hflag', hflag]
      simp [Bool.or_assoc]
  simpa [run, init] using hrun (invariant_init producer)

end Session

/-! ## The observation a reader sees -/

/-- In a log numbered from zero the last observation is the one with the highest sequence. -/
theorem lastObservation_eq_some_iff {captured : List StateSnapshot} {next : ℕ}
    (hsequences : captured.map StateSnapshot.sequence = List.range next)
    {snapshot : StateSnapshot} :
    lastObservation captured = some snapshot ↔
      snapshot ∈ captured ∧ snapshot.isEvent = false ∧
        ∀ other ∈ captured, other.isEvent = false → other.sequence ≤ snapshot.sequence := by
  have hsorted : captured.Pairwise fun left right ↦ left.sequence < right.sequence := by
    have hrange := List.pairwise_lt_range (n := next)
    rw [← hsequences, List.pairwise_map] at hrange
    exact hrange
  clear hsequences
  induction captured using List.reverseRecOn with
  | nil => simp [lastObservation]
  | append_singleton rest last ih =>
    rw [List.pairwise_append] at hsorted
    have hlast : ∀ other ∈ rest, other.sequence < last.sequence :=
      fun other hother ↦ hsorted.2.2 other hother last (by simp)
    rw [lastObservation_append]
    cases hevent : last.isEvent with
    | true =>
      rw [if_pos rfl]
      refine Iff.trans (ih hsorted.1) ?_
      constructor
      · rintro ⟨hmem, hkind, hmax⟩
        refine ⟨by simp [hmem], hkind, fun other hother hobservation ↦ ?_⟩
        cases List.mem_append.mp hother with
        | inl hrest => exact hmax other hrest hobservation
        | inr heq =>
          rw [List.mem_singleton.mp heq, hevent] at hobservation
          exact absurd hobservation (by decide)
      · rintro ⟨hmem, hkind, hmax⟩
        cases List.mem_append.mp hmem with
        | inl hrest => exact ⟨hrest, hkind, fun other hother ↦ hmax other (by simp [hother])⟩
        | inr heq =>
          rw [List.mem_singleton.mp heq, hevent] at hkind
          exact absurd hkind (by decide)
    | false =>
      simp only [Bool.false_eq_true, if_false, Option.some.injEq]
      constructor
      · rintro rfl
        refine ⟨by simp, hevent, fun other hother _ ↦ ?_⟩
        cases List.mem_append.mp hother with
        | inl hrest => exact (hlast other hrest).le
        | inr heq => rw [List.mem_singleton.mp heq]
      · rintro ⟨hmem, -, hmax⟩
        cases List.mem_append.mp hmem with
        | inl hrest =>
          exact absurd (hmax last (by simp) hevent) (Nat.not_le.mpr (hlast snapshot hrest))
        | inr heq => exact (List.mem_singleton.mp heq).symm

theorem latest_ok_iff {state : ProducerState} {captured : List StateSnapshot}
    (h : state.latestObservation.map BufferedSnapshot.snapshot = lastObservation captured)
    {snapshot : StateSnapshot} :
    latest state = .ok snapshot ↔ lastObservation captured = some snapshot := by
  rw [← h]
  cases hlatest : state.latestObservation <;> simp [latest, hlatest]

theorem latest_error_iff {state : ProducerState} {captured : List StateSnapshot}
    (h : state.latestObservation.map BufferedSnapshot.snapshot = lastObservation captured) :
    latest state = .error .snapshotUnavailable ↔ ∀ snapshot ∈ captured, snapshot.isEvent = true := by
  have hnone : lastObservation captured = none ↔ ∀ snapshot ∈ captured, snapshot.isEvent = true := by
    simp [lastObservation]
  rw [← hnone, ← h]
  cases hlatest : state.latestObservation <;> simp [latest, hlatest]

/-- Any run of captures, seals and reads, under any supported limits.  The retained snapshots are
consecutive up to the next sequence, the counters agree with them, the byte budget covers them and
a pinned observation, and until history is released `latest` is the newest observation ever
accepted. -/
theorem Session.producer_bounded (producer : SnapshotProducer) (actions : List Action) :
    ∃ session, Session.run producer actions = some session ∧
      session.state.snapshots.length ≤ session.state.nextSequence ∧
      session.state.snapshots.map (fun entry ↦ entry.snapshot.sequence) =
        List.range' (session.state.nextSequence - session.state.snapshots.length)
          session.state.snapshots.length ∧
      (∀ entry ∈ session.state.snapshots, entry.snapshot ∈ session.captured ∧
        Accounted entry.snapshot entry.bytes) ∧
      session.state.bufferedBytes =
        (session.state.snapshots.map BufferedSnapshot.bytes).sum ∧
      session.state.snapshots.length ≤ producer.limits.maxSnapshots ∧
      session.state.bufferedBytes + pinnedBytes session.state ≤ producer.limits.maxBytes ∧
      (stats session.state).bufferedBytes ≤ producer.limits.maxBytes ∧
      session.captured.map StateSnapshot.sequence = List.range session.state.nextSequence ∧
      (session.released = actions.any fun action ↦ action matches .sealAndReleaseHistory) ∧
      (session.released = false →
        session.state.droppedSnapshots + session.state.snapshots.length =
          session.state.nextSequence ∧
        (∀ snapshot, latest session.state = .ok snapshot ↔
          snapshot ∈ session.captured ∧ snapshot.isEvent = false ∧
            ∀ other ∈ session.captured, other.isEvent = false →
              other.sequence ≤ snapshot.sequence) ∧
        (latest session.state = .error .snapshotUnavailable ↔
          ∀ snapshot ∈ session.captured, snapshot.isEvent = true)) := by
  obtain ⟨session, hrun, hinvariant, hreleased⟩ := Session.run_invariant producer actions
  have hring := hinvariant.ring
  refine ⟨session, hrun, hring.length_le, hring.consecutive,
    fun entry hmem ↦ ⟨hring.mem_captured hmem, hring.accounted entry hmem⟩, hring.bytes,
    hring.count, hring.budget, hring.budget, hring.captured_sequences, hreleased, fun hopen ↦ ?_⟩
  have hunreleased := hinvariant.unreleased hopen
  refine ⟨hunreleased.dropped, fun snapshot ↦ ?_, latest_error_iff hunreleased.latest⟩
  rw [latest_ok_iff hunreleased.latest, lastObservation_eq_some_iff hring.captured_sequences]

/-- In every reachable state a capture either fails and changes nothing, or its checks pass, and
then no eviction loop spins, no step of the insertion fails and the whole batch is accepted. -/
theorem Session.capture_atomic (producer : SnapshotProducer) (actions : List Action)
    (now : ℕ → ℤ) (events : List SnapshotEvent) :
    ∃ session, Session.run producer actions = some session ∧
      ∃ result state', producer.captureBatch now events session.state = some (result, state') ∧
        (∀ error, result = .error error → state' = session.state) ∧
        ∀ prepared nextSequence,
          producer.checkBatch now events session.state = .ok (prepared, nextSequence) →
          (∃ inserted, insertAll producer.limits session.state.nextSequence session.state prepared =
            some (.ok (), inserted) ∧ state' = { inserted with nextSequence }) ∧
          result = .ok ⟨session.state.nextSequence, nextSequence, events.length,
            state'.droppedSnapshots⟩ ∧
          nextSequence = session.state.nextSequence + events.length := by
  obtain ⟨session, hrun, hinvariant, -⟩ := Session.run_invariant producer actions
  refine ⟨session, hrun, ?_⟩
  cases hcheck : producer.checkBatch now events session.state with
  | error reason =>
    refine ⟨.error reason, session.state, by simp [SnapshotProducer.captureBatch, hcheck],
      fun _ _ ↦ rfl, fun prepared nextSequence hok ↦ ?_⟩
    simp at hok
  | ok admitted =>
    obtain ⟨prepared, nextSequence⟩ := admitted
    obtain ⟨inserted, hinsert, hcapture, -, hnext, hlength, -⟩ :=
      captureBatch_of_checked hinvariant.ring hinvariant.unreleased_of_open hcheck
    refine ⟨_, _, hcapture, fun error herror ↦ by simp at herror, fun other next hok ↦ ?_⟩
    obtain ⟨rfl, rfl⟩ := Prod.mk.inj (Except.ok.inj hok)
    exact ⟨⟨inserted, hinsert, rfl⟩, by rw [hlength], hnext⟩

end Rvx.Snapshots
