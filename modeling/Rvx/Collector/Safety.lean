import Rvx.Collector.System
import Rvx.Engine.SessionView

/-!
# Safety of collection

Whatever the order in which a producer's operations, the serving of pages and their deliveries
interleave, the store holds only what the producer captured, and records as lost only what the
producer no longer retained when it served the page that says so.
-/

namespace Rvx.Collector

open Core Snapshots Engine Script

variable {pairing : Pairing} {serde : Serde}

/-! ## Pages on their way -/

/-- What holds of a served page, whatever happened since: it was built from an earlier log of the
session, and starts no later than what is retained now. -/
structure Serving.Sound (pairing : Pairing) (session : Session) (serving : Serving) : Prop where
  built : ∃ log after, log <+: session.captured ∧
    Ring pairing.producer serving.state.nextSequence log serving.state ∧
    Served pairing.producer log serving.state after serving.page
  oldest_le : serving.page.oldestSequence ≤ oldestSequence session.state

namespace Serving.Sound

variable {session session' : Session} {serving : Serving}

theorem sessionId (h : serving.Sound pairing session) :
    serving.page.sourceSessionId = pairing.sessionId := by
  obtain ⟨log, after, -, -, hserved⟩ := h.built
  exact hserved.session

theorem grow (h : serving.Sound pairing session)
    (hlog : session.captured <+: session'.captured)
    (holdest : oldestSequence session.state ≤ oldestSequence session'.state) :
    serving.Sound pairing session' := by
  obtain ⟨log, after, hprefix, hring, hserved⟩ := h.built
  exact ⟨⟨log, after, hprefix.trans hlog, hring, hserved⟩, h.oldest_le.trans holdest⟩

/-- The snapshots of a served page are those captured under their sequences. -/
theorem captured (h : serving.Sound pairing session) {snapshot : StateSnapshot}
    (hmem : snapshot ∈ serving.page.snapshots) :
    session.captured[snapshot.sequence]? = some snapshot := by
  obtain ⟨log, after, ⟨rest, hrest⟩, hring, hserved⟩ := h.built
  rw [hserved.snapshots] at hmem
  have hlog := hring.getElem?_sequence (List.mem_of_mem_drop (List.mem_of_mem_take hmem))
  have hlt := (List.getElem?_eq_some_iff.mp hlog).1
  rw [← hrest, List.getElem?_append_left hlt, hlog]

theorem next_le (h : serving.Sound pairing session) :
    serving.page.nextSequence ≤ session.captured.length := by
  obtain ⟨log, after, hprefix, hring, hserved⟩ := h.built
  have hle := hprefix.length_le
  rw [hring.length_captured] at hle
  exact hserved.next_le.trans hle

/-- What lies before the page's oldest sequence was captured earlier and no longer retained. -/
theorem evicted (h : serving.Sound pairing session) {n : ℕ}
    (hn : n < serving.page.oldestSequence) :
    n < serving.state.nextSequence ∧
      ∀ entry ∈ serving.state.snapshots, entry.snapshot.sequence ≠ n := by
  obtain ⟨log, after, -, hring, hserved⟩ := h.built
  refine ⟨hn.trans_le hserved.oldest_le, fun entry hentry heq ↦ ?_⟩
  have hge := hring.oldest_le rfl hentry
  rw [← hserved.oldest] at hge
  omega

end Serving.Sound

/-- A page that was just served. -/
theorem serve_sound {system system' : System} {serving : Serving} {after limit : ℕ}
    (hsession : system.session.Invariant pairing.producer)
    (h : pairing.serve after limit system = .ok (serving, system')) :
    system' = { system with served := system.served ++ [serving] } ∧
      serving.Sound pairing system.session ∧
      Served pairing.producer system.session.captured system.session.state after serving.page := by
  unfold Pairing.serve at h
  cases hhistory : pairing.producer.history after limit system.session.state with
  | error reason => simp [hhistory, Except.map] at h
  | ok page =>
    simp only [hhistory, Except.map, Except.ok.injEq, Prod.mk.injEq] at h
    obtain ⟨rfl, rfl⟩ := h
    have hserved := (history_spec hsession.ring hhistory).2
    exact ⟨rfl, ⟨⟨system.session.captured, after, List.prefix_rfl, hsession.ring, hserved⟩,
      hserved.oldest.le⟩, hserved⟩

/-! ## The joint invariant -/

/-- A stored row holds the snapshot the producer captured under its sequence. -/
def Faithful (captured : List StateSnapshot) (row : SnapshotRow) : Prop :=
  ∃ snapshot, captured[row.sequence]? = some snapshot ∧ row.snapshotJson = snapshot.encode ∧
    row.observedAtNs = snapshot.observedAtNs

theorem Faithful.grow {captured captured' : List StateSnapshot} {row : SnapshotRow}
    (h : Faithful captured row) (hlog : captured <+: captured') : Faithful captured' row := by
  obtain ⟨snapshot, hget, hrow⟩ := h
  obtain ⟨rest, rfl⟩ := hlog
  refine ⟨snapshot, ?_, hrow⟩
  rw [List.getElem?_append_left (List.getElem?_eq_some_iff.mp hget).1, hget]

/-- The invariant that links the producer, the pages on their way and the store. -/
structure System.Invariant (pairing : Pairing) (system : System) : Prop where
  session : system.session.Invariant pairing.producer
  store : Consistent system.store.db
  served : ∀ serving ∈ system.served, serving.Sound pairing system.session
  rows : ∀ row ∈ system.store.db.rowsOf pairing.source.id pairing.sessionId,
    Faithful system.session.captured row
  recorded : system.recorded.map Prod.fst = pairing.lost system.store
  recorders : ∀ record ∈ system.recorded,
    record.2 ∈ system.served ∧ record.2.page.oldestSequence = record.1.2
  cursor_le : pairing.cursor system.store ≤ system.session.state.nextSequence

namespace System.Invariant

variable {system system' : System}

theorem init : System.init.Invariant pairing where
  session := Session.invariant_init pairing.producer
  store := consistent_empty
  served := by simp [System.init]
  rows := by simp [System.init, Store.init, Database.empty, Database.rowsOf]
  recorded := by simp [System.init, Pairing.lost, Store.init, Database.empty,
    Database.lostIntervals, Database.gapsOf]
  recorders := by simp [System.init]
  cursor_le := Nat.zero_le _

theorem produce (h : system.Invariant pairing) {action : Snapshots.Action} {session : Session}
    (hstep : system.session.step pairing.producer action = some session) :
    ({ system with session } : System).Invariant pairing := by
  obtain ⟨session', heq, hsession, -⟩ := Session.step_invariant h.session action
  obtain rfl := Option.some.inj (hstep.symm.trans heq)
  obtain ⟨hlog, holdest⟩ := Session.step_grows h.session hstep
  refine ⟨hsession, h.store, fun serving hmem ↦ (h.served serving hmem).grow hlog holdest,
    fun row hrow ↦ (h.rows row hrow).grow hlog, h.recorded, h.recorders, ?_⟩
  calc
    pairing.cursor system.store ≤ system.session.state.nextSequence := h.cursor_le
    _ = system.session.captured.length := h.session.ring.length_captured.symm
    _ ≤ session.captured.length := hlog.length_le
    _ = session.state.nextSequence := hsession.ring.length_captured

theorem serve (h : system.Invariant pairing) {after limit : ℕ} {serving : Serving}
    (hserve : pairing.serve after limit system = .ok (serving, system')) :
    system'.Invariant pairing ∧ serving ∈ system'.served := by
  obtain ⟨rfl, hsound, -⟩ := serve_sound h.session hserve
  refine ⟨⟨h.session, h.store, fun other hmem ↦ ?_, h.rows, h.recorded, fun record hmem ↦ ?_,
    h.cursor_le⟩, List.mem_append_right _ (List.mem_singleton_self _)⟩
  · cases List.mem_append.mp hmem with
    | inl hold => exact h.served other hold
    | inr hnew => exact List.mem_singleton.mp hnew ▸ hsound
  · obtain ⟨hserved, hoc⟩ := h.recorders record hmem
    exact ⟨List.mem_append_left _ hserved, hoc⟩

/-- A view that did not change keeps the invariant. -/
theorem sameView (h : system.Invariant pairing) {store : Store} (hstore : Consistent store.db)
    (hview : SameView pairing.source.id pairing.sessionId system.store.db store.db) :
    ({ system with store } : System).Invariant pairing where
  session := h.session
  store := hstore
  served := h.served
  rows := fun row hrow ↦ h.rows row (hview.rows ▸ hrow)
  recorded := h.recorded.trans hview.lostIntervals.symm
  recorders := h.recorders
  cursor_le := hview.cursor.trans_le h.cursor_le

theorem deliver (h : system.Invariant pairing) {serving : Serving} {now : ℕ → ℤ}
    (hmem : serving ∈ system.served)
    (hdeliver : pairing.deliver serde serving now system = some system') :
    system'.Invariant pairing := by
  obtain ⟨store, hstep, rfl⟩ := Option.map_eq_some_iff.mp hdeliver
  have hstore := (Store.step_consistent h.store hstep).1
  have hsound := h.served serving hmem
  simp only [Store.step, Option.ite_none_right_eq_some, Option.some.injEq, ingestBatch_eq,
    ingestSequentially] at hstep
  obtain ⟨-, rfl⟩ := hstep
  rcases atomically_cases serde (pairing.delivery serving.page now) h.store with
    ⟨reason, hrun⟩ | ⟨n, db, hrun, -, hingested⟩
  · rw [hrun] at hstore ⊢
    have hsame := h.sameView hstore (SameView.refl _ _ _)
    simpa using hsame
  · rw [hrun] at hstore ⊢
    have hview : ViewExtended pairing.source serving.page system.store.db db :=
      hingested.viewExtended
    have hid := hsound.sessionId
    obtain ⟨gaps, hlost, hgaps⟩ := hview.lost
    have hrows := hview.rows
    have hcursor := hview.cursor
    rw [hid] at hlost hrows hcursor
    have hnew : (pairing.lost { system.store with db }).drop (pairing.lost system.store).length =
        gaps := by
      unfold Pairing.lost
      dsimp only
      rw [hlost, List.drop_left]
    refine ⟨h.session, hstore, h.served, fun row hrow ↦ ?_, ?_, fun record hrecord ↦ ?_, ?_⟩
    · rcases hrows row hrow with hold | ⟨snapshot, hsnapshot, ingested, id, rfl⟩
      · exact h.rows row hold
      · exact ⟨snapshot, hsound.captured hsnapshot, rfl, rfl⟩
    · dsimp only
      rw [hnew, List.map_append, h.recorded, List.map_map]
      simpa [Pairing.lost, Function.comp_def] using hlost.symm
    · dsimp only at hrecord
      rw [hnew] at hrecord
      cases List.mem_append.mp hrecord with
      | inl hold => exact h.recorders record hold
      | inr hone =>
        obtain ⟨gap, hgap, rfl⟩ := List.mem_map.mp hone
        exact ⟨hmem, (hgaps gap hgap).symm⟩
    · have hnext := hsound.next_le
      rw [h.session.ring.length_captured] at hnext
      exact hcursor.trans_le (max_le h.cursor_le hnext)

theorem operate (h : system.Invariant pairing) {action : Engine.Action} {store : Store}
    (hforeign : pairing.Foreign action) (hstep : system.store.step serde action = some store) :
    ({ system with store } : System).Invariant pairing := by
  refine h.sameView (Store.step_consistent h.store hstep).1 ?_
  rcases Store.step_raw hstep with hraw | ⟨pages, rfl, -, rfl⟩
  · exact hraw.sameView _ _
  · exact ingestSequentially_sameView pages h.store hforeign

/-- Every event keeps the invariant. -/
theorem step (h : system.Invariant pairing) {event : Event}
    (hstep : pairing.step serde system event = some system') : system'.Invariant pairing := by
  cases event with
  | produce action =>
    obtain ⟨session, haction, rfl⟩ := Option.map_eq_some_iff.mp hstep
    exact h.produce haction
  | serve after limit =>
    simp only [Pairing.step] at hstep
    split at hstep
    · rename_i hserve
      obtain rfl := Option.some.inj hstep
      exact (h.serve hserve).1
    · obtain rfl := Option.some.inj hstep
      exact h
  | deliver index now =>
    obtain ⟨serving, hget, hdeliver⟩ := Option.bind_eq_some_iff.mp hstep
    exact h.deliver (List.mem_of_getElem? hget) hdeliver
  | pull limit now =>
    simp only [Pairing.step] at hstep
    split at hstep
    · rename_i hserve
      obtain ⟨hmiddle, hmem⟩ := h.serve hserve
      exact hmiddle.deliver hmem hstep
    · obtain rfl := Option.some.inj hstep
      exact h
  | operate action =>
    simp only [Pairing.step, Option.ite_none_right_eq_some] at hstep
    obtain ⟨hforeign, hstep⟩ := hstep
    obtain ⟨store, haction, rfl⟩ := Option.map_eq_some_iff.mp hstep
    exact h.operate hforeign haction

theorem run {events : List Event} (h : pairing.run serde events .init = some system) :
    system.Invariant pairing :=
  Runs.invariant (System.Invariant pairing) (fun hsystem hstep ↦ hsystem.step hstep) init h

end System.Invariant

/-! ## Safety -/

/-- In every run, whatever pages are delayed, repeated or reordered: a stored row holds the snapshot
the producer captured under its sequence, and a recorded gap covers only sequences that were
captured and no longer retained when the page that recorded it was served, and are not retained
now. -/
theorem Pairing.collection_safe {events : List Event} {system : System}
    (h : pairing.run serde events .init = some system) :
    (∀ row ∈ system.store.db.rowsOf pairing.source.id pairing.sessionId,
      ∃ snapshot, system.session.captured[row.sequence]? = some snapshot ∧
        snapshot.sequence = row.sequence ∧ row.snapshotJson = snapshot.encode ∧
        row.observedAtNs = snapshot.observedAtNs ∧
        (serde.RoundTrip → serde.snapshot row.snapshotJson = some snapshot)) ∧
      ∀ gap ∈ pairing.lost system.store,
        (∃ serving ∈ system.served, (gap, serving) ∈ system.recorded ∧
          serving.page.oldestSequence = gap.2 ∧ ∀ n ∈ Set.Ico gap.1 gap.2,
            n < serving.state.nextSequence ∧
              ∀ entry ∈ serving.state.snapshots, entry.snapshot.sequence ≠ n) ∧
        ∀ n ∈ Set.Ico gap.1 gap.2,
          ∀ entry ∈ system.session.state.snapshots, entry.snapshot.sequence ≠ n := by
  have hsystem := System.Invariant.run h
  have hring := hsystem.session.ring
  constructor
  · intro row hrow
    obtain ⟨snapshot, hget, hjson, hobserved⟩ := hsystem.rows row hrow
    have hmem := List.mem_of_getElem? hget
    refine ⟨snapshot, hget, ?_, hjson, hobserved, fun hserde ↦ ?_⟩
    · have hself := hring.getElem?_sequence hmem
      have hnodup : system.session.captured.Nodup := by
        refine List.Nodup.of_map StateSnapshot.sequence ?_
        rw [hring.captured_sequences]
        exact List.nodup_range
      exact (List.getElem?_inj (List.getElem?_eq_some_iff.mp hself).1 hnodup).mp
        (hself.trans hget.symm)
    · rw [hjson]
      exact hserde snapshot (hring.captured_valid snapshot hmem).1
  · intro gap hgap
    rw [← hsystem.recorded] at hgap
    obtain ⟨⟨_, serving⟩, hrecord, rfl⟩ := List.mem_map.mp hgap
    obtain ⟨hserved, hoc⟩ := hsystem.recorders _ hrecord
    have hsound := hsystem.served serving hserved
    refine ⟨⟨serving, hserved, hrecord, hoc, fun n hn ↦ ?_⟩, fun n hn entry hentry heq ↦ ?_⟩
    · exact hsound.evicted (hoc ▸ (Set.mem_Ico.mp hn).2)
    · have hlt : n < serving.page.oldestSequence := hoc ▸ (Set.mem_Ico.mp hn).2
      have hge := hring.oldest_le rfl hentry
      have hle := hsound.oldest_le
      omega

def sampleProducer : SnapshotProducer := ⟨sampleDescriptor, ⟨1, 1000⟩, by decide, by rfl⟩

def samplePairing : Pairing := ⟨sampleProducer, sampleSource, ⟨rfl, rfl, rfl⟩, by rfl⟩

def sampleCapture (time : ℤ) : Event :=
  .produce (.captureBatch (fun _ ↦ 0) [⟨sampleState, some time, .empty⟩])

/-- A page that is overtaken by an eviction and by a later page. -/
def sampleEvents : List Event :=
  openNew.map .operate ++ [sampleCapture 100, .serve 0 64, sampleCapture 101, .serve 0 64,
    .deliver 1 (fun _ ↦ 200), .deliver 0 (fun _ ↦ 201), .deliver 1 (fun _ ↦ 202)]

/-- The JSON library on the snapshots of the sample. -/
noncomputable def sampleSerde : Serde := .inverse [⟨"session-1", 1, 101, 1, .empty, sampleState⟩]

theorem Pairing.collection_safe_sample :
    ∃ system, samplePairing.run sampleSerde sampleEvents .init = some system ∧
      samplePairing.lost system.store = [(0, 1)] ∧
      system.store.db.storedSequences "trainer" "session-1" = [1] ∧
      ∃ serving ∈ system.served, ((0, 1), serving) ∈ system.recorded ∧
        0 < serving.state.nextSequence ∧
        ∀ entry ∈ serving.state.snapshots, entry.snapshot.sequence ≠ 0 := by
  have hsample : ((samplePairing.run sampleSerde sampleEvents .init).map fun system ↦
      (samplePairing.lost system.store,
        system.store.db.storedSequences "trainer" "session-1")) = some ([(0, 1)], [1]) := by
    decide +kernel
  obtain ⟨system, hrun, hviews⟩ := Option.map_eq_some_iff.mp hsample
  obtain ⟨hlost, hstored⟩ := Prod.mk.inj hviews
  obtain ⟨⟨serving, hserved, hrecord, -, hevicted⟩, -⟩ :=
    (Pairing.collection_safe hrun).2 (0, 1) (by rw [hlost]; exact List.mem_singleton_self _)
  exact ⟨system, hrun, hlost, hstored, serving, hserved, hrecord, hevicted 0 (by decide)⟩

end Rvx.Collector
