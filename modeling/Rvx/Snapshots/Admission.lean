import Rvx.Snapshots.Session

/-!
# What a capture admits

A batch of well-formed events with a header each is admitted exactly when every snapshot fits the
limits on nodes, encoded size and accounted bytes and every event record fits beside the
observation that is current when it is inserted.
-/

namespace Rvx.Snapshots

open Core Check

/-! ## Accounted bytes -/

/-- The bytes a snapshot is accounted for. -/
def weight (snapshot : StateSnapshot) : ℕ :=
  512 + snapshot.sourceSessionId.utf8ByteSize + axesBytes snapshot.axes +
    (accountedValue snapshot.state.value 0).toOption.getD 0

theorem accountedItems_ok {items : List Value} {depth : ℕ}
    (h : ∀ item ∈ items, ∃ size, accountedValue item depth = .ok size) (bytes : ℕ) :
    ∃ total, accountedItems items bytes depth = .ok total := by
  induction items generalizing bytes with
  | nil => exact ⟨bytes, by rw [accountedItems]⟩
  | cons item rest ih =>
    obtain ⟨⟨size, hsize⟩, hrest⟩ := List.forall_mem_cons.mp h
    rw [accountedItems, hsize]
    exact ih hrest _

theorem accountedEntries_ok {entries : List (String × Value)} {depth : ℕ}
    (h : ∀ entry ∈ entries, ∃ size, accountedValue entry.2 depth = .ok size) (bytes : ℕ) :
    ∃ total, accountedEntries entries bytes depth = .ok total := by
  induction entries generalizing bytes with
  | nil => exact ⟨bytes, by rw [accountedEntries]⟩
  | cons entry rest ih =>
    obtain ⟨⟨size, hsize⟩, hrest⟩ := List.forall_mem_cons.mp h
    rw [accountedEntries, hsize]
    exact ih hrest _

/-- What the traversal of a validation accepts is not nested too deep to be accounted for. -/
theorem accounted_of_checkNodes {remaining : ℕ} {stack : List (Value × ℕ)}
    (h : checkNodes remaining stack = .ok ()) :
    ∀ node ∈ stack, ∃ size, accountedValue node.1 node.2 = .ok size := by
  fun_induction checkNodes remaining stack with
  | case1 => simp
  | case2 => simp at h
  | case3 => simp at h
  | case4 remaining depth stack hdepth entries ih =>
    have hall := ih h
    simp only [List.mem_append, List.mem_reverse, List.mem_map] at hall
    refine List.forall_mem_cons.mpr ⟨?_, fun node hnode ↦ hall node (Or.inr hnode)⟩
    rw [accountedValue, if_neg hdepth]
    exact accountedEntries_ok
      (fun entry hentry ↦ hall (entry.2, depth + 1) (Or.inl ⟨entry, hentry, rfl⟩)) 64
  | case5 remaining depth stack hdepth items ih =>
    have hall := ih h
    simp only [List.mem_append, List.mem_reverse, List.mem_map] at hall
    refine List.forall_mem_cons.mpr ⟨?_, fun node hnode ↦ hall node (Or.inr hnode)⟩
    rw [accountedValue, if_neg hdepth]
    exact accountedItems_ok
      (fun item hitem ↦ hall (item, depth + 1) (Or.inl ⟨item, hitem, rfl⟩)) 64
  | case6 => simp at h
  | case7 remaining depth stack hdepth number hnumber ih =>
    refine List.forall_mem_cons.mpr ⟨?_, ih h⟩
    rw [accountedValue, if_neg hdepth]
    exact ⟨_, rfl⟩
  | case8 remaining value depth stack hdepth hobject harray hnumber ih =>
    refine List.forall_mem_cons.mpr ⟨?_, ih h⟩
    cases value with
    | null | bool | string => simp [accountedValue, hdepth]
    | number number => exact absurd rfl (hnumber number)
    | array items => exact absurd rfl (harray items)
    | object entries => exact absurd rfl (hobject entries)

/-! ## One event -/

/-- An event whose snapshot can only fail a limit. -/
structure SnapshotEvent.WellFormed (event : SnapshotEvent) : Prop where
  object : event.state.value.isObject = true
  header : ∃ header, trackerHeader event.state.value = .ok header
  axes : event.axes.size ≤ MAX_SNAPSHOT_AXES
  named : ∀ name ∈ event.axes.keys, validateText "axis name" name 256 false = .ok ()
  observed : event.observedAtNs.isSome = true

namespace SnapshotProducer

variable (producer : SnapshotProducer)

/-- The limits on the snapshot an event becomes under a sequence. -/
structure Fits (sequence : ℕ) (event : SnapshotEvent) : Prop where
  nodes : checkNodes MAX_SNAPSHOT_NODES [(event.state.value, 0)] = .ok ()
  size : (producer.snapshotOf 0 sequence event).encodedLength ≤ MAX_SNAPSHOT_BYTES
  bytes : weight (producer.snapshotOf 0 sequence event) ≤ producer.limits.maxBytes

/-- What the validation loop makes of an event. -/
def preparedOf (event : SnapshotEvent) : Prepared :=
  let snapshot := producer.snapshotOf 0 0 event
  ⟨snapshot, weight snapshot, snapshot.encodedLength⟩

variable {producer}

theorem checkAll_ok {α : Type} {check : α → Except ProducerError Unit} {items : List α} :
    checkAll check items = .ok () ↔ ∀ item ∈ items, check item = .ok () := by
  induction items with
  | nil => simp [checkAll]
  | cons item rest ih => simp [checkAll, exists_unit, ih]

/-- The identity a producer was accepted with. -/
theorem validated_session (producer : SnapshotProducer) :
    isBlank producer.descriptor.sourceSessionId = false ∧
      producer.descriptor.sourceSessionId.utf8ByteSize ≤ 256 ∧
      producer.descriptor.schemaVersion = SNAPSHOT_SCHEMA_VERSION := by
  have hvalid := producer.validated
  simp only [validateDescriptor, validateText, bind_eq_ok, exists_unit, reject_ok] at hvalid
  obtain ⟨hversion, hsession, -⟩ := hvalid
  simp only [not_or, not_lt, Bool.not_false, Bool.true_and, Bool.not_eq_true,
    not_not] at hversion hsession
  exact ⟨hsession.2, hsession.1, hversion.2⟩

theorem weight_snapshotOf (producer : SnapshotProducer) {event : SnapshotEvent} {stateBytes : ℕ}
    (h : accountedValue event.state.value 0 = .ok stateBytes) :
    weight (producer.snapshotOf 0 0 event) =
      512 + producer.descriptor.sourceSessionId.utf8ByteSize + axesBytes event.axes +
        stateBytes := by
  rw [weight, show (producer.snapshotOf 0 0 event).state = event.state from rfl, h]
  rfl

theorem encodedLength_snapshotOf (sequence : ℕ) (event : SnapshotEvent) :
    (producer.snapshotOf 0 sequence event).encodedLength =
      (producer.preparedOf event).encoded + Nat.log 10 sequence :=
  (producer.snapshotOf 0 0 event).encodedLength_withSequence sequence

theorem Fits.unnumbered {sequence : ℕ} {event : SnapshotEvent}
    (h : producer.Fits sequence event) : producer.Fits 0 event := by
  refine ⟨h.nodes, ?_, h.bytes⟩
  have hsize := h.size
  rw [encodedLength_snapshotOf] at hsize ⊢
  simp only [Nat.log_zero_right]
  omega

/-- A well-formed event passes the validation loop exactly when it fits. -/
theorem prepare_eq_ok {event : SnapshotEvent} (h : event.WellFormed) {now : ℤ} {batchBytes : ℕ}
    {result : Prepared × ℕ} :
    producer.prepare now batchBytes event = .ok result ↔
      (producer.Fits 0 event ∧
        batchBytes + ((producer.preparedOf event).encoded + 1) ≤ MAX_SNAPSHOT_PAGE_BYTES) ∧
      result =
        (producer.preparedOf event, batchBytes + ((producer.preparedOf event).encoded + 1)) := by
  obtain ⟨observed, hobserved⟩ := Option.isSome_iff_exists.mp h.observed
  have hsnapshot : producer.snapshotOf now 0 event = producer.snapshotOf 0 0 event := by
    simp [snapshotOf, hobserved]
  obtain ⟨hblank, hlength, hschema⟩ := producer.validated_session
  have hvalid : validateStateSnapshot (producer.snapshotOf 0 0 event) = .ok () ↔
      checkNodes MAX_SNAPSHOT_NODES [(event.state.value, 0)] = .ok () ∧
        (producer.snapshotOf 0 0 event).encodedLength ≤ MAX_SNAPSHOT_BYTES := by
    refine StateSnapshot.valid_iff.trans ⟨fun hall ↦ hall.2.2.2.2.2.2.2, fun hall ↦ ?_⟩
    have hsequence : 0 < I64_MAX := by decide
    exact ⟨h.header, hblank, hlength.trans (by decide), hschema, h.object, hsequence, h.axes, hall⟩
  constructor
  · intro hprepare
    simp only [prepare, bind_eq_ok, exists_unit, reject_ok, mapError_eq_ok, pure_eq_ok, not_lt,
      hsnapshot, hvalid] at hprepare
    obtain ⟨-, stateBytes, hstate, -, -, ⟨hnodes, hsize⟩, -, hpage, hbytes, rfl⟩ := hprepare
    have hweight := producer.weight_snapshotOf hstate
    refine ⟨⟨⟨hnodes, hsize, ?_⟩, hpage⟩, ?_⟩
    · rw [hweight]
      exact hbytes
    · rw [preparedOf, hweight]
      rfl
  · rintro ⟨⟨hfits, hpage⟩, rfl⟩
    obtain ⟨stateBytes, hstate⟩ :=
      accounted_of_checkNodes hfits.nodes (event.state.value, 0) (List.mem_singleton_self _)
    have hweight := producer.weight_snapshotOf hstate
    simp only [prepare, bind_eq_ok, exists_unit, reject_ok, mapError_eq_ok, pure_eq_ok, not_lt,
      hsnapshot, hvalid]
    refine ⟨by simp [h.object], stateBytes, hstate, h.axes, checkAll_ok.mpr h.named,
      ⟨hfits.nodes, hfits.size⟩, hfits.size, hpage, ?_, ?_⟩
    · have hbytes := hfits.bytes
      rw [hweight] at hbytes
      exact hbytes
    · rw [preparedOf, hweight]
      rfl

/-! ## A batch -/

/-- The validation loop accepts well-formed events that fit, as long as there are few of them. -/
theorem prepareAll_eq_ok {events : List SnapshotEvent} (h : ∀ event ∈ events, event.WellFormed)
    {now : ℕ → ℤ} {index batchBytes : ℕ}
    (hpage : batchBytes + events.length * (MAX_SNAPSHOT_BYTES + 1) ≤ MAX_SNAPSHOT_PAGE_BYTES)
    {prepared : List Prepared} :
    producer.prepareAll now index batchBytes events = .ok prepared ↔
      (∀ event ∈ events, producer.Fits 0 event) ∧ prepared = events.map producer.preparedOf := by
  induction events generalizing index batchBytes prepared with
  | nil => simp [prepareAll, eq_comm]
  | cons event rest ih =>
    obtain ⟨hevent, hrest⟩ := List.forall_mem_cons.mp h
    rw [List.length_cons, Nat.add_mul] at hpage
    simp only [prepareAll, bind_eq_ok, pure_eq_ok, List.forall_mem_cons, List.map_cons]
    constructor
    · rintro ⟨⟨one, bytes⟩, hone, others, hothers, rfl⟩
      obtain ⟨⟨hfits, -⟩, heq⟩ := (prepare_eq_ok hevent).mp hone
      obtain ⟨rfl, rfl⟩ := Prod.mk.inj heq
      have hsize : (producer.preparedOf event).encoded ≤ MAX_SNAPSHOT_BYTES := hfits.size
      obtain ⟨hall, rfl⟩ := (ih hrest (by omega)).mp hothers
      exact ⟨⟨hfits, hall⟩, rfl⟩
    · rintro ⟨⟨hfits, hall⟩, rfl⟩
      have hsize : (producer.preparedOf event).encoded ≤ MAX_SNAPSHOT_BYTES := hfits.size
      exact ⟨_, (prepare_eq_ok hevent).mpr ⟨⟨hfits, by omega⟩, rfl⟩, _,
        (ih hrest (by omega)).mpr ⟨hall, rfl⟩, rfl⟩

/-- Sizes under assigned sequences are checked once more when the sequences are known. -/
theorem checkSequences_eq_ok {sequence : ℕ} {prepared : List Prepared} :
    checkSequences sequence prepared = .ok () ↔ ∀ entry ∈ prepared.zipIdx sequence,
      entry.1.encoded + Nat.log 10 entry.2 ≤ MAX_SNAPSHOT_BYTES := by
  induction prepared generalizing sequence with
  | nil => simp [checkSequences]
  | cons one rest ih =>
    rw [checkSequences, List.zipIdx_cons, List.forall_mem_cons, ← ih]
    dsimp only
    split <;> simp <;> omega

/-- A batch of a few well-formed events is admitted exactly when the captures are open, there is
sequence space, every event fits and the event records fit beside the current observation. -/
theorem checkBatch_isOk {events : List SnapshotEvent} (h : ∀ event ∈ events, event.WellFormed)
    (hsome : events ≠ []) (hfew : events.length ≤ 3) (now : ℕ → ℤ) (state : ProducerState)
    (hsealed : state.isSealed = false) (hspace : state.nextSequence + events.length ≤ I64_MAX) :
    (∃ admitted, producer.checkBatch now events state = .ok admitted) ↔
      (∀ entry ∈ events.zipIdx state.nextSequence, producer.Fits entry.2 entry.1) ∧
        checkBudget producer.limits (state.latestObservation.elim 0 BufferedSnapshot.bytes)
          (events.map producer.preparedOf) = .ok () := by
  have hpage : 2 + events.length * (MAX_SNAPSHOT_BYTES + 1) ≤ MAX_SNAPSHOT_PAGE_BYTES := by
    have hpages : 2 + 3 * (MAX_SNAPSHOT_BYTES + 1) ≤ MAX_SNAPSHOT_PAGE_BYTES := by decide
    have hmul := Nat.mul_le_mul_right (MAX_SNAPSHOT_BYTES + 1) hfew
    omega
  have hbatch : ¬ (events = [] ∨ events.length > MAX_BATCH_SNAPSHOTS) := by
    rintro (hnil | hmany)
    · exact hsome hnil
    · unfold MAX_BATCH_SNAPSHOTS at hmany
      omega
  have hsequences : (∀ entry ∈ events.zipIdx state.nextSequence, producer.Fits entry.2 entry.1) ↔
      (∀ event ∈ events, producer.Fits 0 event) ∧
        checkSequences state.nextSequence (events.map producer.preparedOf) = .ok () := by
    rw [checkSequences_eq_ok, List.zipIdx_map, List.forall_mem_map]
    constructor
    · intro hall
      refine ⟨fun event hevent ↦ ?_, fun entry hentry ↦ ?_⟩
      · rw [← List.zipIdx_map_fst state.nextSequence events] at hevent
        obtain ⟨entry, hentry, rfl⟩ := List.mem_map.mp hevent
        exact (hall entry hentry).unnumbered
      · have hsize := (hall entry hentry).size
        rw [encodedLength_snapshotOf] at hsize
        exact hsize
    · rintro ⟨hall, hsizes⟩ entry hentry
      have hfits := hall entry.1 (List.fst_mem_of_mem_zipIdx hentry)
      refine ⟨hfits.nodes, ?_, hfits.bytes⟩
      rw [encodedLength_snapshotOf]
      exact hsizes entry hentry
  rw [hsequences]
  simp only [checkBatch, bind_eq_ok, exists_unit, reject_ok, pure_eq_ok, prepareAll_eq_ok h hpage,
    hsealed, Bool.false_eq_true, not_false_eq_true, true_and, hbatch]
  constructor
  · rintro ⟨admitted, prepared, ⟨hall, rfl⟩, -, hsizes, hbudget, -⟩
    exact ⟨⟨hall, hsizes⟩, hbudget⟩
  · rintro ⟨⟨hall, hsizes⟩, hbudget⟩
    refine ⟨_, _, ⟨hall, rfl⟩, ?_, hsizes, hbudget, rfl⟩
    rw [List.length_map, not_lt]
    exact hspace

end SnapshotProducer

end Rvx.Snapshots
