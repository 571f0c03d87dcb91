import Rvx.Core.SnapshotText
import Rvx.Snapshots.Producer

/-!
# The producer's invariant

A session is the producer's state together with the log of every snapshot it ever accepted.  The
ring invariant relates the retained snapshots, the counters and the byte budget to that log; it is
stated for a next sequence that runs ahead of the state's own while a batch is being inserted.
-/

namespace Rvx.Snapshots

open Core Check

variable {producer : SnapshotProducer}

/-! ## Prepared snapshots -/

/-- The bytes a snapshot is accounted for. -/
def Accounted (snapshot : StateSnapshot) (bytes : ℕ) : Prop :=
  ∃ stateBytes, accountedValue snapshot.state.value 0 = .ok stateBytes ∧
    bytes = 512 + snapshot.sourceSessionId.utf8ByteSize + axesBytes snapshot.axes + stateBytes

/-- What the validation loop establishes for one event. -/
structure Prepared.Sound (producer : SnapshotProducer) (prepared : Prepared) : Prop where
  valid : prepared.snapshot.Valid
  session : prepared.snapshot.sourceSessionId = producer.descriptor.sourceSessionId
  first : prepared.snapshot.sequence = 0
  encoded : prepared.encoded = prepared.snapshot.encodedLength
  accounted : Accounted prepared.snapshot prepared.bytes
  fits : prepared.bytes ≤ producer.limits.maxBytes

/-- The prepared snapshots under their assigned sequences. -/
def numbered (sequence : ℕ) : List Prepared → List StateSnapshot
  | [] => []
  | prepared :: rest => { prepared.snapshot with sequence } :: numbered (sequence + 1) rest

/-- The snapshots the events of an accepted batch are captured as. -/
def accepted (producer : SnapshotProducer) (now : ℕ → ℤ) (index sequence : ℕ) :
    List SnapshotEvent → List StateSnapshot
  | [] => []
  | event :: rest =>
    producer.snapshotOf (now index) sequence event ::
      accepted producer now (index + 1) (sequence + 1) rest

theorem prepare_spec {now : ℤ} {batchBytes batchBytes' : ℕ} {event : SnapshotEvent}
    {prepared : Prepared} (h : producer.prepare now batchBytes event = .ok (prepared, batchBytes')) :
    prepared.Sound producer ∧ prepared.snapshot = producer.snapshotOf now 0 event := by
  simp only [SnapshotProducer.prepare, bind_eq_ok, exists_unit, reject_ok, mapError_eq_ok,
    pure_eq_ok, Prod.mk.injEq, not_lt] at h
  obtain ⟨-, stateBytes, hstate, -, -, hvalid, -, -, hfits, rfl, -⟩ := h
  exact ⟨⟨hvalid, rfl, rfl, rfl, ⟨stateBytes, hstate, rfl⟩, hfits⟩, rfl⟩

theorem prepareAll_spec {now : ℕ → ℤ} {index batchBytes : ℕ} {events : List SnapshotEvent}
    {prepared : List Prepared} (h : producer.prepareAll now index batchBytes events = .ok prepared) :
    (∀ one ∈ prepared, one.Sound producer) ∧ prepared.length = events.length ∧
      ∀ sequence, numbered sequence prepared = accepted producer now index sequence events := by
  induction events generalizing index batchBytes prepared with
  | nil =>
    simp only [SnapshotProducer.prepareAll, Except.ok.injEq] at h
    rw [← h]
    exact ⟨by simp, rfl, fun _ ↦ rfl⟩
  | cons event rest ih =>
    simp only [SnapshotProducer.prepareAll, bind_eq_ok, pure_eq_ok, Prod.exists] at h
    obtain ⟨one, batchBytes', hone, others, hothers, rfl⟩ := h
    obtain ⟨hsound, hsnapshot⟩ := prepare_spec hone
    obtain ⟨hall, hlength, hnumbered⟩ := ih hothers
    refine ⟨by simpa using ⟨hsound, hall⟩, by simp [hlength], fun sequence ↦ ?_⟩
    simp only [numbered, accepted, hnumbered, hsnapshot]
    rfl

/-- The size and range checks made under the lock keep a snapshot valid under its sequence. -/
theorem Prepared.Sound.valid_numbered {prepared : Prepared} (h : prepared.Sound producer)
    {sequence : ℕ} (hsequence : sequence < I64_MAX)
    (hsize : prepared.encoded + (Nat.log 10 sequence + 1) - 1 ≤ MAX_SNAPSHOT_BYTES) :
    ({ prepared.snapshot with sequence } : StateSnapshot).Valid := by
  have hvalid := StateSnapshot.valid_iff.mp h.valid
  have hzero : ({ prepared.snapshot with sequence := 0 } : StateSnapshot) = prepared.snapshot := by
    rw [← h.first]
  have hlength := prepared.snapshot.encodedLength_withSequence sequence
  rw [hzero, ← h.encoded] at hlength
  refine StateSnapshot.valid_iff.mpr ⟨hvalid.1, hvalid.2.1, hvalid.2.2.1, hvalid.2.2.2.1,
    hvalid.2.2.2.2.1, hsequence, hvalid.2.2.2.2.2.2.1, hvalid.2.2.2.2.2.2.2.1, ?_⟩
  calc
    ({ prepared.snapshot with sequence } : StateSnapshot).encodedLength =
        prepared.encoded + Nat.log 10 sequence := hlength
    _ ≤ MAX_SNAPSHOT_BYTES := by omega

theorem checkSequences_spec {sequence : ℕ} {prepared : List Prepared}
    (hsound : ∀ one ∈ prepared, one.Sound producer)
    (hrange : sequence + prepared.length ≤ I64_MAX)
    (h : checkSequences sequence prepared = .ok ()) :
    ∀ snapshot ∈ numbered sequence prepared, snapshot.Valid ∧
      snapshot.sourceSessionId = producer.descriptor.sourceSessionId := by
  induction prepared generalizing sequence with
  | nil => simp [numbered]
  | cons one rest ih =>
    simp only [checkSequences, gt_iff_lt] at h
    split at h
    · simp at h
    · rename_i hsize
      simp only [List.mem_cons, forall_eq_or_imp, List.length_cons] at hsound hrange
      simp only [numbered, List.mem_cons, forall_eq_or_imp]
      exact ⟨⟨hsound.1.valid_numbered (by omega) (by omega), hsound.1.session⟩,
        ih hsound.2 (by omega) h⟩

/-! ## The ring -/

/-- The latest observation of a log. -/
def lastObservation (captured : List StateSnapshot) : Option StateSnapshot :=
  captured.reverse.find? fun snapshot ↦ !snapshot.isEvent

theorem lastObservation_append (captured : List StateSnapshot) (snapshot : StateSnapshot) :
    lastObservation (captured ++ [snapshot]) =
      if snapshot.isEvent then lastObservation captured else some snapshot := by
  unfold lastObservation
  rw [List.reverse_append, List.reverse_singleton, List.singleton_append, List.find?_cons]
  cases snapshot.isEvent <;> rfl

theorem lastObservation_mem {captured : List StateSnapshot} {snapshot : StateSnapshot}
    (h : lastObservation captured = some snapshot) : snapshot ∈ captured :=
  List.mem_reverse.mp (List.mem_of_find?_eq_some h)

/-- The retained snapshots are the end of the log, accounted for and within the limits. -/
structure Ring (producer : SnapshotProducer) (next : ℕ) (captured : List StateSnapshot)
    (state : ProducerState) : Prop where
  captured_sequences : captured.map StateSnapshot.sequence = List.range next
  captured_valid : ∀ snapshot ∈ captured, snapshot.Valid ∧
    snapshot.sourceSessionId = producer.descriptor.sourceSessionId
  length_le : state.snapshots.length ≤ next
  retained : state.snapshots.map BufferedSnapshot.snapshot =
    captured.drop (next - state.snapshots.length)
  accounted : ∀ entry ∈ state.snapshots, Accounted entry.snapshot entry.bytes
  bytes : state.bufferedBytes = (state.snapshots.map BufferedSnapshot.bytes).sum
  count : state.snapshots.length ≤ producer.limits.maxSnapshots
  budget : state.bufferedBytes + pinnedBytes state ≤ producer.limits.maxBytes

/-- What holds beyond the ring as long as history was not released. -/
structure Unreleased (next : ℕ) (captured : List StateSnapshot) (state : ProducerState) : Prop where
  dropped : state.droppedSnapshots + state.snapshots.length = next
  newest : 0 < next → state.snapshots ≠ []
  latest : state.latestObservation.map BufferedSnapshot.snapshot = lastObservation captured
  latest_accounted : ∀ entry ∈ state.latestObservation, Accounted entry.snapshot entry.bytes

namespace Ring

variable {next : ℕ} {captured : List StateSnapshot} {state : ProducerState}

theorem length_captured (h : Ring producer next captured state) : captured.length = next := by
  simpa using congrArg List.length h.captured_sequences

theorem sequence_lt (h : Ring producer next captured state) {snapshot : StateSnapshot}
    (hmem : snapshot ∈ captured) : snapshot.sequence < next := by
  have hrange : snapshot.sequence ∈ List.range next := by
    rw [← h.captured_sequences]
    exact List.mem_map_of_mem hmem
  exact List.mem_range.mp hrange

/-- A snapshot of the log stands at its own sequence. -/
theorem getElem?_sequence (h : Ring producer next captured state) {snapshot : StateSnapshot}
    (hmem : snapshot ∈ captured) : captured[snapshot.sequence]? = some snapshot := by
  obtain ⟨index, hindex, rfl⟩ := List.mem_iff_getElem.mp hmem
  have hsequence : (captured.map StateSnapshot.sequence)[index]? = (List.range next)[index]? := by
    rw [h.captured_sequences]
  have hlt : index < next := h.length_captured ▸ hindex
  rw [List.getElem?_map, List.getElem?_range hlt, List.getElem?_eq_getElem hindex] at hsequence
  have heq : captured[index].sequence = index := by simpa using hsequence
  rw [heq, List.getElem?_eq_getElem hindex]

/-- The retained sequences are consecutive and end just before the next one. -/
theorem consecutive (h : Ring producer next captured state) :
    state.snapshots.map (fun entry ↦ entry.snapshot.sequence) =
      List.range' (next - state.snapshots.length) state.snapshots.length := by
  calc
    state.snapshots.map (fun entry ↦ entry.snapshot.sequence) =
        (state.snapshots.map BufferedSnapshot.snapshot).map StateSnapshot.sequence := by
      rw [List.map_map]
      rfl
    _ = (List.range next).drop (next - state.snapshots.length) := by
      rw [h.retained, List.map_drop, h.captured_sequences]
    _ = List.range' (next - state.snapshots.length) state.snapshots.length := by
      have hle := h.length_le
      rw [List.range_eq_range', List.drop_range']
      congr 1 <;> omega

theorem mem_captured (h : Ring producer next captured state) {entry : BufferedSnapshot}
    (hmem : entry ∈ state.snapshots) : entry.snapshot ∈ captured := by
  have hdrop : entry.snapshot ∈ captured.drop (next - state.snapshots.length) := by
    rw [← h.retained]
    exact List.mem_map_of_mem hmem
  exact List.mem_of_mem_drop hdrop

end Ring

/-- Where the retained snapshots start. -/
theorem oldestSequence_eq {next : ℕ} {captured : List StateSnapshot} {state : ProducerState}
    (h : Ring producer next captured state) (hnext : state.nextSequence = next) :
    oldestSequence state = next - state.snapshots.length := by
  have hconsecutive := h.consecutive
  cases hring : state.snapshots with
  | nil => simp [oldestSequence, hring, hnext]
  | cons front rest =>
    rw [hring] at hconsecutive
    simp only [List.map_cons, List.length_cons, List.range'_succ, List.cons.injEq] at hconsecutive
    simp [oldestSequence, hring, hconsecutive.1]

theorem Ring.oldest_le {next : ℕ} {captured : List StateSnapshot} {state : ProducerState}
    (h : Ring producer next captured state) (hnext : state.nextSequence = next)
    {entry : BufferedSnapshot} (hmem : entry ∈ state.snapshots) :
    oldestSequence state ≤ entry.snapshot.sequence := by
  have hsequence : entry.snapshot.sequence ∈ List.range' (next - state.snapshots.length)
      state.snapshots.length := by
    rw [← h.consecutive]
    exact List.mem_map_of_mem hmem
  rw [oldestSequence_eq h hnext]
  exact (List.mem_range'_1.mp hsequence).1

/-! ## Eviction and insertion -/

theorem pinnedBytes_nil (state : ProducerState) :
    pinnedBytes { state with snapshots := [] } =
      state.latestObservation.elim 0 BufferedSnapshot.bytes := by
  cases state.latestObservation <;> simp [pinnedBytes]

/-- Where an eviction loop stops: the front is gone up to some point and the newcomer fits. -/
theorem evict_spec {limits : BufferLimits} {bytes : ℕ} {isEvent : Bool}
    {ring : List BufferedSnapshot} (state : ProducerState) (hcount : 0 < limits.maxSnapshots)
    (hfits : bytes + (if isEvent then state.latestObservation.elim 0 BufferedSnapshot.bytes else 0) ≤
      limits.maxBytes)
    (hbytes : state.bufferedBytes = (ring.map BufferedSnapshot.bytes).sum) :
    ∃ gone ≤ ring.length, ∃ room, evict limits bytes isEvent state ring = some room ∧
      ¬ Overflows limits bytes isEvent room ∧
      room = { state with
        snapshots := ring.drop gone
        bufferedBytes := ((ring.drop gone).map BufferedSnapshot.bytes).sum
        droppedSnapshots := state.droppedSnapshots + gone } := by
  induction ring generalizing state with
  | nil =>
    have hroom : ¬ Overflows limits bytes isEvent { state with snapshots := [] } := by
      simp only [List.map_nil, List.sum_nil] at hbytes
      simp only [Overflows, List.length_nil, pinnedBytes_nil, not_or]
      constructor <;> omega
    refine ⟨0, le_rfl, { state with snapshots := [] }, by rw [evict, if_neg hroom], hroom, ?_⟩
    simpa using hbytes
  | cons removed rest ih =>
    by_cases hfull : Overflows limits bytes isEvent { state with snapshots := removed :: rest }
    · obtain ⟨gone, hgone, room, hevict, hroom, heq⟩ := ih
        { state with
          bufferedBytes := state.bufferedBytes - removed.bytes
          droppedSnapshots := state.droppedSnapshots + 1 } hfits (by simp [hbytes])
      refine ⟨gone + 1, by simpa using hgone, room, by rw [evict, if_pos hfull, hevict], hroom, ?_⟩
      rw [heq]
      simp only [List.drop_succ_cons, Nat.add_assoc, Nat.add_comm 1 gone]
    · refine ⟨0, Nat.zero_le _, _, by rw [evict, if_neg hfull], hfull, ?_⟩
      simpa using hbytes

theorem pinnedBytes_append_observation {prepared : Prepared} {sequence : ℕ}
    {state : ProducerState}
    (h : ∀ entry ∈ state.snapshots, entry.snapshot.sequence < sequence) :
    pinnedBytes (append prepared sequence false state) = 0 := by
  cases hring : state.snapshots with
  | nil => simp [pinnedBytes, append, hring]
  | cons front rest =>
    have hlt := h front (by simp [hring])
    simp [pinnedBytes, append, hring, Nat.not_lt.mpr hlt.le]

theorem pinnedBytes_append_event {prepared : Prepared} {sequence : ℕ} {state : ProducerState}
    (h : ∀ entry ∈ state.latestObservation, entry.snapshot.sequence < sequence) :
    pinnedBytes (append prepared sequence true state) = pinnedBytes state := by
  cases hlatest : state.latestObservation with
  | none => simp [pinnedBytes, append, hlatest]
  | some entry =>
    have hlt := h entry hlatest
    cases hring : state.snapshots with
    | nil => simp [pinnedBytes, append, hlatest, hring, hlt]
    | cons front rest => simp [pinnedBytes, append, hlatest, hring]

/-- The state after the `gone` oldest snapshots were evicted. -/
def dropOldest (gone : ℕ) (state : ProducerState) : ProducerState :=
  { state with
    snapshots := state.snapshots.drop gone
    bufferedBytes := ((state.snapshots.drop gone).map BufferedSnapshot.bytes).sum
    droppedSnapshots := state.droppedSnapshots + gone }

section Append

variable {next gone : ℕ} {captured : List StateSnapshot} {state : ProducerState}
  {prepared : Prepared}

/-- Dropping the oldest snapshots leaves the newest of the log in the ring. -/
theorem Ring.retained_dropOldest (h : Ring producer next captured state)
    (hgone : gone ≤ state.snapshots.length) :
    (dropOldest gone state).snapshots.map BufferedSnapshot.snapshot =
      captured.drop (next - (dropOldest gone state).snapshots.length) := by
  have hle := h.length_le
  have hlog := h.length_captured
  simp only [dropOldest, List.map_drop, h.retained, List.drop_drop, List.length_drop]
  congr 1
  omega

/-- Without an overflow the ring has room for one more snapshot. -/
theorem Ring.append_dropOldest (h : Ring producer next captured state)
    (hopen : Unreleased next captured state) (hsound : prepared.Sound producer)
    (hvalid : ({ prepared.snapshot with sequence := next } : StateSnapshot).Valid)
    (hgone : gone ≤ state.snapshots.length)
    (hroom : ¬ Overflows producer.limits prepared.bytes prepared.snapshot.isEvent
      (dropOldest gone state)) :
    Ring producer (next + 1) (captured ++ [{ prepared.snapshot with sequence := next }])
      (append prepared next prepared.snapshot.isEvent (dropOldest gone state)) := by
  simp only [Overflows, not_or, not_le, gt_iff_lt, ge_iff_le, not_lt] at hroom
  have hlength : (dropOldest gone state).snapshots.length = state.snapshots.length - gone :=
    List.length_drop
  have hle := h.length_le
  have hlog := h.length_captured
  have hsequences : ∀ entry ∈ (dropOldest gone state).snapshots,
      entry.snapshot.sequence < next := by
    intro entry hentry
    exact h.sequence_lt (h.mem_captured (List.mem_of_mem_drop hentry))
  have hlatest : ∀ entry ∈ (dropOldest gone state).latestObservation,
      entry.snapshot.sequence < next := by
    intro entry hentry
    have hsome : state.latestObservation = some entry := hentry
    have hlast : lastObservation captured = some entry.snapshot := by
      rw [← hopen.latest, hsome]
      rfl
    exact h.sequence_lt (lastObservation_mem hlast)
  refine ⟨?_, ?_, ?_, ?_, ?_, ?_, ?_, ?_⟩
  · rw [List.map_append, h.captured_sequences, List.range_succ]
    rfl
  · intro snapshot hmem
    cases List.mem_append.mp hmem with
    | inl hold => exact h.captured_valid snapshot hold
    | inr hnew =>
      rw [List.mem_singleton.mp hnew]
      exact ⟨hvalid, hsound.session⟩
  · simp only [append, List.length_append, List.length_singleton]
    omega
  · have hdrop : next + 1 - ((dropOldest gone state).snapshots.length + 1) =
        next - (dropOldest gone state).snapshots.length := by omega
    simp only [append, List.map_append, List.map_cons, List.map_nil, List.length_append,
      List.length_singleton, hdrop, h.retained_dropOldest hgone]
    rw [List.drop_append_of_le_length (by omega)]
  · intro entry hentry
    simp only [append, List.mem_append, List.mem_singleton] at hentry
    cases hentry with
    | inl hold => exact h.accounted entry (List.mem_of_mem_drop hold)
    | inr hnew =>
      rw [hnew]
      exact hsound.accounted
  · simp [append, dropOldest]
  · simpa [append] using Nat.succ_le_of_lt hroom.1
  · cases hevent : prepared.snapshot.isEvent with
    | true =>
      rw [pinnedBytes_append_event hlatest]
      simp only [hevent, if_true, append] at hroom ⊢
      exact hroom.2
    | false =>
      rw [pinnedBytes_append_observation hsequences]
      simpa [hevent, append] using hroom.2

theorem Unreleased.append_dropOldest (h : Unreleased next captured state)
    (hsound : prepared.Sound producer) (hgone : gone ≤ state.snapshots.length) :
    Unreleased (next + 1) (captured ++ [{ prepared.snapshot with sequence := next }])
      (append prepared next prepared.snapshot.isEvent (dropOldest gone state)) := by
  have hkind : ({ prepared.snapshot with sequence := next } : StateSnapshot).isEvent =
      prepared.snapshot.isEvent := rfl
  have hdropped := h.dropped
  refine ⟨?_, by simp [append], ?_, ?_⟩
  · simp only [append, dropOldest, List.length_append, List.length_drop, List.length_singleton]
    omega
  · rw [lastObservation_append, hkind]
    cases hevent : prepared.snapshot.isEvent with
    | true => simpa [append, dropOldest] using h.latest
    | false => simp [append]
  · intro entry hentry
    cases hevent : prepared.snapshot.isEvent with
    | true =>
      rw [hevent, append, if_pos rfl] at hentry
      exact h.latest_accounted entry hentry
    | false =>
      have hnew : (⟨{ prepared.snapshot with sequence := next }, prepared.bytes⟩ :
          BufferedSnapshot) = entry := by simpa [append, hevent] using hentry
      rw [← hnew]
      exact hsound.accounted

end Append

/-- One round of the insertion loop: evict, then append. -/
theorem insert_step {next : ℕ} {captured : List StateSnapshot} {state : ProducerState}
    {prepared : Prepared} (hring : Ring producer next captured state)
    (hopen : Unreleased next captured state) (hsound : prepared.Sound producer)
    (hvalid : ({ prepared.snapshot with sequence := next } : StateSnapshot).Valid)
    (hbudget : prepared.snapshot.isEvent = true →
      state.latestObservation.elim 0 BufferedSnapshot.bytes + prepared.bytes ≤
        producer.limits.maxBytes) :
    ∃ room, evict producer.limits prepared.bytes prepared.snapshot.isEvent state
        state.snapshots = some room ∧
      Ring producer (next + 1) (captured ++ [{ prepared.snapshot with sequence := next }])
        (append prepared next prepared.snapshot.isEvent room) ∧
      Unreleased (next + 1) (captured ++ [{ prepared.snapshot with sequence := next }])
        (append prepared next prepared.snapshot.isEvent room) ∧
      room.latestObservation = state.latestObservation ∧
      state.droppedSnapshots ≤ room.droppedSnapshots := by
  have hfits : prepared.bytes + (if prepared.snapshot.isEvent then
      state.latestObservation.elim 0 BufferedSnapshot.bytes else 0) ≤
      producer.limits.maxBytes := by
    split
    · have hevent := hbudget ‹_›
      omega
    · simpa using hsound.fits
  obtain ⟨gone, hgone, room, hevict, hroom, heq⟩ :=
    evict_spec state (Nat.lt_of_lt_of_le Nat.zero_lt_one producer.supported.1.1) hfits
      hring.bytes
  obtain rfl : room = dropOldest gone state := heq
  exact ⟨_, hevict, hring.append_dropOldest hopen hsound hvalid hgone hroom,
    hopen.append_dropOldest hsound hgone, rfl, Nat.le_add_right _ _⟩

/-- The insertion loop ends, inserts the whole batch and keeps the ring. -/
theorem insertAll_spec {next : ℕ} {captured : List StateSnapshot} {state : ProducerState}
    {prepared : List Prepared} (hring : Ring producer next captured state)
    (hopen : Unreleased next captured state) (hsound : ∀ one ∈ prepared, one.Sound producer)
    (hvalid : ∀ snapshot ∈ numbered next prepared, snapshot.Valid)
    (hbudget : checkBudget producer.limits
      (state.latestObservation.elim 0 BufferedSnapshot.bytes) prepared = .ok ()) :
    ∃ state', insertAll producer.limits next state prepared = some (.ok (), state') ∧
      Ring producer (next + prepared.length) (captured ++ numbered next prepared) state' ∧
      Unreleased (next + prepared.length) (captured ++ numbered next prepared) state' ∧
      state.droppedSnapshots ≤ state'.droppedSnapshots := by
  induction prepared generalizing next captured state with
  | nil =>
    exact ⟨state, rfl, by simpa [numbered] using hring, by simpa [numbered] using hopen, le_rfl⟩
  | cons one rest ih =>
    simp only [numbered, List.mem_cons, forall_eq_or_imp] at hsound hvalid
    have hkind := hsound.1.valid.isTrackerEvent
    simp only [checkBudget, hkind] at hbudget
    have hone : one.snapshot.isEvent = true →
        state.latestObservation.elim 0 BufferedSnapshot.bytes + one.bytes ≤
          producer.limits.maxBytes := by
      intro hevent
      simp only [hevent] at hbudget
      split at hbudget
      · simp at hbudget
      · omega
    obtain ⟨room, hevict, hring', hopen', hlatest, hdropped⟩ :=
      insert_step hring hopen hsound.1 hvalid.1 hone
    have hrest : checkBudget producer.limits
        ((append one next one.snapshot.isEvent room).latestObservation.elim 0
          BufferedSnapshot.bytes) rest = .ok () := by
      cases hevent : one.snapshot.isEvent with
      | true =>
        simp only [hevent] at hbudget
        split at hbudget
        · simp at hbudget
        · simpa [append, hlatest] using hbudget
      | false => simpa [append, hevent] using hbudget
    obtain ⟨state', hinsert, hring'', hopen'', hdropped'⟩ :=
      ih hring' hopen' hsound.2 hvalid.2 hrest
    refine ⟨state', ?_, ?_, ?_, hdropped.trans hdropped'⟩
    · rw [insertAll, hkind]
      dsimp only
      rw [hevict]
      exact hinsert
    · simpa [numbered, Nat.add_assoc, Nat.add_comm 1] using hring''
    · simpa [numbered, Nat.add_assoc, Nat.add_comm 1] using hopen''

end Rvx.Snapshots
