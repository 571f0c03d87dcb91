import Rvx.Snapshots.Session

/-!
# Serving history

`history` answers a pull with the retained snapshots after a sequence, bounded in count and in
bytes.  A page it serves is well formed, lists captured snapshots under their own sequences, and is
never empty while an unread snapshot is retained.
-/

namespace Rvx.Snapshots

open Core Check

structure HistorySelection where
  oldestSequence : ℕ
  nextSequence : ℕ
  droppedBefore : Option ℕ
  snapshots : List StateSnapshot

/-- The longest prefix that fits the page budget, given the bytes already used. -/
def takeWithin (bytes : ℕ) : List StateSnapshot → List StateSnapshot
  | [] => []
  | snapshot :: rest =>
    let length := snapshot.encodedLength + 1
    if bytes + length > MAX_SNAPSHOT_PAGE_BYTES then []
    else snapshot :: takeWithin (bytes + length) rest

namespace SnapshotProducer

variable (producer : SnapshotProducer)

/-- The bytes reserved for a page's envelope. -/
def envelopeBytes : ℕ := 1024 + producer.descriptor.sourceSessionId.utf8ByteSize * 6

def selectHistory (after limit : ℕ) (state : ProducerState) :
    Except ProducerError HistorySelection :=
  if ¬ (1 ≤ limit ∧ limit ≤ MAX_SNAPSHOT_HISTORY_LIMIT) then
    .error (.invalidInput "limit must be between 1 and 256")
  else if after > state.nextSequence then
    .error (.invalidInput "after must not exceed next_sequence")
  else
    let oldest := oldestSequence state
    let candidates := ((state.snapshots.drop (after - oldest)).take limit).map
      BufferedSnapshot.snapshot
    let snapshots := takeWithin producer.envelopeBytes candidates
    .ok
      { oldestSequence := oldest
        nextSequence := snapshots.getLast?.elim (max after oldest) fun last ↦ last.sequence + 1
        droppedBefore := if after < oldest then some oldest else none
        snapshots }

/-- The protocol page of a selection. -/
def history (after limit : ℕ) (state : ProducerState) :
    Except ProducerError SnapshotHistoryResponse :=
  (producer.selectHistory after limit state).map fun selected ↦
    { protocolVersion := 1
      sourceSessionId := producer.descriptor.sourceSessionId
      oldestSequence := selected.oldestSequence
      nextSequence := selected.nextSequence
      droppedBefore := selected.droppedBefore
      snapshots := selected.snapshots }

end SnapshotProducer

variable {producer : SnapshotProducer}

/-! ## The byte budget -/

theorem takeWithin_spec (bytes : ℕ) (snapshots : List StateSnapshot) :
    ∃ count ≤ snapshots.length, takeWithin bytes snapshots = snapshots.take count ∧
      (bytes ≤ MAX_SNAPSHOT_PAGE_BYTES →
        bytes + ((takeWithin bytes snapshots).map fun snapshot ↦ snapshot.encodedLength + 1).sum ≤
          MAX_SNAPSHOT_PAGE_BYTES) := by
  induction snapshots generalizing bytes with
  | nil => exact ⟨0, le_rfl, rfl, by simp [takeWithin]⟩
  | cons snapshot rest ih =>
    by_cases hfull : bytes + (snapshot.encodedLength + 1) > MAX_SNAPSHOT_PAGE_BYTES
    · exact ⟨0, Nat.zero_le _, by simp [takeWithin, hfull], by simp [takeWithin, hfull]⟩
    · obtain ⟨count, hcount, htake, hsum⟩ := ih (bytes + (snapshot.encodedLength + 1))
      refine ⟨count + 1, by simpa using hcount, by simp [takeWithin, hfull, htake], fun _ ↦ ?_⟩
      have htail := hsum (by omega)
      simp only [takeWithin, hfull, if_false, List.map_cons, List.sum_cons]
      omega

/-- The first snapshot always fits. -/
theorem takeWithin_cons_ne_nil {bytes : ℕ} {snapshot : StateSnapshot} {rest : List StateSnapshot}
    (h : bytes + (snapshot.encodedLength + 1) ≤ MAX_SNAPSHOT_PAGE_BYTES) :
    takeWithin bytes (snapshot :: rest) ≠ [] := by
  simp [takeWithin, Nat.not_lt.mpr h]

theorem validateText_ok {field text : String} {maximum : ℕ}
    (h : validateText field text maximum false = .ok ()) :
    isBlank text = false ∧ text.utf8ByteSize ≤ maximum := by
  simp only [validateText, reject_ok, not_or, not_lt, gt_iff_lt, Bool.not_false, Bool.true_and,
    Bool.not_eq_true] at h
  exact ⟨h.2, h.1⟩

/-- A producer's session identifier is nonblank and short. -/
theorem SnapshotProducer.session_bounds (producer : SnapshotProducer) :
    isBlank producer.descriptor.sourceSessionId = false ∧
      producer.descriptor.sourceSessionId.utf8ByteSize ≤ 256 := by
  have h := producer.validated
  simp only [validateDescriptor, bind_eq_ok, exists_unit, reject_ok] at h
  exact validateText_ok h.2.1

theorem SnapshotProducer.envelopeBytes_le (producer : SnapshotProducer) :
    producer.envelopeBytes ≤ 2560 := by
  have h := producer.session_bounds.2
  unfold envelopeBytes
  omega

/-! ## Pages -/

/-- What a served page contains: the captured snapshots from the later of the requested and the
oldest retained sequence, up to the page's next sequence. -/
structure Served (producer : SnapshotProducer) (captured : List StateSnapshot)
    (state : ProducerState) (after : ℕ) (page : SnapshotHistoryResponse) : Prop where
  version : page.protocolVersion = 1
  session : page.sourceSessionId = producer.descriptor.sourceSessionId
  oldest : page.oldestSequence = oldestSequence state
  oldest_le : page.oldestSequence ≤ state.nextSequence
  dropped : page.droppedBefore =
    if after < page.oldestSequence then some page.oldestSequence else none
  next_eq : page.nextSequence = max after page.oldestSequence + page.snapshots.length
  next_le : page.nextSequence ≤ state.nextSequence
  snapshots : page.snapshots =
    (captured.drop (max after page.oldestSequence)).take page.snapshots.length
  count : page.snapshots.length ≤ MAX_SNAPSHOT_HISTORY_LIMIT
  size : page.encodedLength ≤ MAX_SNAPSHOT_PAGE_BYTES
  progress : page.oldestSequence < state.nextSequence → after < state.nextSequence →
    page.snapshots ≠ []

theorem Ring.next_le {next : ℕ} {captured : List StateSnapshot} {state : ProducerState}
    (h : Ring producer next captured state) : next ≤ I64_MAX := by
  cases next with
  | zero => exact Nat.zero_le _
  | succ n =>
    have hmem : n ∈ captured.map StateSnapshot.sequence := by
      rw [h.captured_sequences]
      simp
    obtain ⟨snapshot, hsnapshot, hsequence⟩ := List.mem_map.mp hmem
    have hlt := (h.captured_valid snapshot hsnapshot).1.sequence_lt
    omega

/-- The candidates of a request are the log from the later of the two sequences on. -/
theorem Ring.candidates_eq {captured : List StateSnapshot} {state : ProducerState}
    (h : Ring producer state.nextSequence captured state) (after limit : ℕ) :
    ((state.snapshots.drop (after - oldestSequence state)).take limit).map BufferedSnapshot.snapshot =
      (captured.drop (max after (oldestSequence state))).take limit := by
  have hoc := oldestSequence_eq h rfl
  have hlog := h.length_captured
  have hle := h.length_le
  rw [List.map_take, List.map_drop, h.retained, List.drop_drop]
  congr 2
  omega

/-- The sequence after the last of `count` snapshots of the log, or the first when there are none. -/
theorem Ring.next_of_take {next start count : ℕ} {captured : List StateSnapshot}
    {state : ProducerState} (h : Ring producer next captured state) (hcount : count ≤ next - start) :
    ((captured.drop start).take count).getLast?.elim start (fun last ↦ last.sequence + 1) =
      start + count := by
  cases count with
  | zero => simp
  | succ n =>
    have hsequences : ((captured.drop start).take (n + 1)).map StateSnapshot.sequence =
        List.range' start (n + 1) := by
      rw [List.map_take, List.map_drop, h.captured_sequences, List.range_eq_range',
        List.drop_range', List.take_range'_of_length_ge (by omega)]
      congr 1
      omega
    have hget := congrArg List.getLast? hsequences
    rw [List.getLast?_map, List.getLast?_range'] at hget
    simp only [Nat.add_eq_zero_iff, one_ne_zero, and_false, if_false] at hget
    obtain ⟨last, hsome, hsequence⟩ := Option.map_eq_some_iff.mp hget
    rw [hsome, Option.elim_some, hsequence]
    omega

/-- Any captured snapshot fits a page of its own. -/
theorem Ring.takeWithin_ne_nil {next start limit : ℕ} {captured : List StateSnapshot}
    {state : ProducerState} (h : Ring producer next captured state)
    (hstart : start < captured.length) (hlimit : 0 < limit) :
    takeWithin producer.envelopeBytes ((captured.drop start).take limit) ≠ [] := by
  obtain ⟨limit, rfl⟩ := Nat.exists_eq_add_one.mpr hlimit
  rw [List.drop_eq_getElem_cons hstart, List.take_succ_cons]
  apply takeWithin_cons_ne_nil
  have hvalid := (h.captured_valid _ (List.getElem_mem hstart)).1
  have hsize := (StateSnapshot.valid_iff.mp hvalid).2.2.2.2.2.2.2.2
  have henvelope := producer.envelopeBytes_le
  simp only [MAX_SNAPSHOT_BYTES, MAX_SNAPSHOT_PAGE_BYTES] at hsize ⊢
  omega

theorem history_spec {captured : List StateSnapshot} {state : ProducerState} {after limit : ℕ}
    {page : SnapshotHistoryResponse} (hring : Ring producer state.nextSequence captured state)
    (h : producer.history after limit state = .ok page) :
    after ≤ state.nextSequence ∧ Served producer captured state after page := by
  unfold SnapshotProducer.history SnapshotProducer.selectHistory at h
  split at h
  · simp [Except.map] at h
  rename_i hlimit
  split at h
  · simp [Except.map] at h
  rename_i hafter
  simp only [not_not, not_lt, gt_iff_lt] at hlimit hafter
  simp only [Except.map, Except.ok.injEq] at h
  have hoc := oldestSequence_eq hring rfl
  have hlog := hring.length_captured
  have hle := hring.length_le
  rw [hring.candidates_eq] at h
  obtain ⟨count, hcount, htake, hsum⟩ := takeWithin_spec producer.envelopeBytes
    ((captured.drop (max after (oldestSequence state))).take limit)
  have hfits := hsum (le_trans producer.envelopeBytes_le (by decide))
  have hlength : (takeWithin producer.envelopeBytes
      ((captured.drop (max after (oldestSequence state))).take limit)).length = count := by
    rw [htake, List.length_take]
    exact min_eq_left hcount
  rw [List.length_take, List.length_drop] at hcount
  have hselected : takeWithin producer.envelopeBytes
      ((captured.drop (max after (oldestSequence state))).take limit) =
        (captured.drop (max after (oldestSequence state))).take count := by
    rw [htake, List.take_take]
    congr 1
    omega
  rw [hselected, hring.next_of_take (by omega)] at h
  have hbounds := hring.next_le
  refine ⟨hafter, ?_⟩
  have hcaptured : ((captured.drop (max after (oldestSequence state))).take count).length =
      count := by rw [← hselected, hlength]
  rw [hselected] at hfits
  rw [← h]
  refine ⟨rfl, rfl, rfl, by rw [hoc]; exact Nat.sub_le _ _, rfl, by rw [hcaptured], ?_,
    by rw [hcaptured], by rw [hcaptured]; omega, ?_, ?_⟩
  · dsimp only
    omega
  · refine le_trans (SnapshotHistoryResponse.encodedLength_le rfl ?_ ?_ ?_) hfits
    · dsimp only
      omega
    · dsimp only
      omega
    · intro n hn
      dsimp only at hn
      split at hn
      · simp only [Option.mem_def, Option.some.injEq] at hn
        omega
      · simp at hn
  · intro hretained hpending
    dsimp only at hretained ⊢
    rw [← hselected]
    exact hring.takeWithin_ne_nil (by omega) (by omega)

/-- A request within the range and the limit is answered. -/
theorem history_isOk {state : ProducerState} {after limit : ℕ} (hafter : after ≤ state.nextSequence)
    (hlimit : 1 ≤ limit ∧ limit ≤ MAX_SNAPSHOT_HISTORY_LIMIT) :
    ∃ page, producer.history after limit state = .ok page := by
  simp [SnapshotProducer.history, SnapshotProducer.selectHistory, hlimit, Nat.not_lt.mpr hafter,
    Except.map]

/-- A served page passes the collector's validation. -/
theorem Served.wellFormed {captured : List StateSnapshot} {state : ProducerState} {after : ℕ}
    {page : SnapshotHistoryResponse} (h : Served producer captured state after page)
    (hring : Ring producer state.nextSequence captured state) : page.WellFormed := by
  have hmem : ∀ snapshot ∈ page.snapshots, snapshot ∈ captured := by
    intro snapshot hsnapshot
    rw [h.snapshots] at hsnapshot
    exact List.mem_of_mem_drop (List.mem_of_mem_take hsnapshot)
  refine ⟨h.version, by rw [h.session]; exact producer.session_bounds.1, h.count,
    le_trans h.next_le hring.next_le, ?_, fun snapshot hs ↦ (hring.captured_valid _ (hmem _ hs)).1,
    fun snapshot hs ↦ ?_, ?_, ?_, h.size⟩
  · intro n hn
    rw [h.dropped] at hn
    split at hn
    · simpa [eq_comm] using hn
    · simp at hn
  · rw [h.session]
    exact (hring.captured_valid _ (hmem _ hs)).2
  · rw [h.next_eq]
    omega
  · have hnext := h.next_eq
    have hle := h.next_le
    calc
      page.snapshots.map StateSnapshot.sequence =
          ((captured.drop (max after page.oldestSequence)).take page.snapshots.length).map
            StateSnapshot.sequence := by rw [← h.snapshots]
      _ = ((List.range state.nextSequence).drop (max after page.oldestSequence)).take
            page.snapshots.length := by
        rw [List.map_take, List.map_drop, hring.captured_sequences]
      _ = List.range' (page.nextSequence - page.snapshots.length) page.snapshots.length := by
        rw [List.range_eq_range', List.drop_range', List.take_range'_of_length_ge (by omega)]
        congr 1
        omega

/-! ## Every served page is valid -/

/-- A page declares a drop exactly when a captured snapshot it asked for is no longer retained. -/
theorem Ring.discarded_iff {captured : List StateSnapshot} {state : ProducerState}
    (hring : Ring producer state.nextSequence captured state) (after : ℕ) :
    after < oldestSequence state ↔ ∃ snapshot ∈ captured, after ≤ snapshot.sequence ∧
      snapshot ∉ state.snapshots.map BufferedSnapshot.snapshot := by
  have hoc := oldestSequence_eq hring rfl
  have hle := hring.length_le
  constructor
  · intro hlt
    have hmem : after ∈ captured.map StateSnapshot.sequence := by
      rw [hring.captured_sequences, List.mem_range]
      omega
    obtain ⟨snapshot, hsnapshot, hsequence⟩ := List.mem_map.mp hmem
    refine ⟨snapshot, hsnapshot, hsequence.ge, fun hretained ↦ ?_⟩
    obtain ⟨entry, hentry, rfl⟩ := List.mem_map.mp hretained
    have holdest := hring.oldest_le rfl hentry
    omega
  · rintro ⟨snapshot, hsnapshot, hge, hgone⟩
    by_contra hlt
    refine hgone ?_
    have hget := hring.getElem?_sequence hsnapshot
    rw [hring.retained, List.mem_iff_getElem?]
    refine ⟨snapshot.sequence - (state.nextSequence - state.snapshots.length), ?_⟩
    rw [List.getElem?_drop, Nat.add_sub_cancel' (by omega), hget]

/-- Any run of captures, seals and releases, then a request for any part of the history in any
page size.  The answer passes the collector's validation, starts at the later of the requested and
the oldest retained sequence, declares a drop exactly when something was lost, and is nonempty
while anything asked for is retained. -/
theorem Session.served_valid (producer : SnapshotProducer) (actions : List Action)
    (after limit : ℕ) :
    ∃ session, Session.run producer actions = some session ∧
      (after ≤ session.state.nextSequence → 1 ≤ limit ∧ limit ≤ MAX_SNAPSHOT_HISTORY_LIMIT →
        ∃ page, producer.history after limit session.state = .ok page ∧
          validateSnapshotHistoryResponse page = .ok () ∧
          page.oldestSequence = oldestSequence session.state ∧
          page.snapshots.map StateSnapshot.sequence =
            List.range' (max after page.oldestSequence) page.snapshots.length ∧
          page.nextSequence = max after page.oldestSequence + page.snapshots.length ∧
          page.snapshots.length ≤ 256 ∧
          page.encodedLength ≤ MAX_SNAPSHOT_PAGE_BYTES ∧
          (∀ n ∈ page.droppedBefore, n = page.oldestSequence) ∧
          (page.droppedBefore.isSome = true ↔ ∃ snapshot ∈ session.captured,
            after ≤ snapshot.sequence ∧
              snapshot ∉ session.state.snapshots.map BufferedSnapshot.snapshot) ∧
          ((∃ entry ∈ session.state.snapshots, after ≤ entry.snapshot.sequence) →
            page.snapshots ≠ [])) := by
  obtain ⟨session, hrun, hinvariant, -⟩ := Session.run_invariant producer actions
  have hring := hinvariant.ring
  refine ⟨session, hrun, fun hafter hlimit ↦ ?_⟩
  obtain ⟨page, hpage⟩ := history_isOk hafter hlimit
  have hserved := (history_spec hring hpage).2
  have hvalid := hserved.wellFormed hring
  have hroom := hserved.next_eq
  refine ⟨page, hpage, wellFormed_iff.mpr hvalid, hserved.oldest, ?_, hserved.next_eq,
    hserved.count, hserved.size, hvalid.dropped, ?_, ?_⟩
  · rw [hvalid.consecutive, hserved.next_eq, Nat.add_sub_cancel]
  · rw [← hring.discarded_iff, hserved.dropped, hserved.oldest]
    split_ifs with hlt
    · simpa using hlt
    · simpa using Nat.not_lt.mp hlt
  · rintro ⟨entry, hentry, hge⟩
    have hlt := hring.sequence_lt (hring.mem_captured hentry)
    have holdest := hring.oldest_le rfl hentry
    refine hserved.progress ?_ (by omega)
    rw [hserved.oldest]
    omega

end Rvx.Snapshots
