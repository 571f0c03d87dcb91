import Rvx.Collector.Safety
import Rvx.Engine.Progress

/-!
# Progress of collection

As long as the producer's history was not released, a pull by an open store that is behind is
accepted and moves the cursor, so enough pulls bring the store up to date.  A released history
cannot be collected any more: its pages are empty, and the store does not skip to their end.
-/

namespace Rvx.Collector

open Core Check Snapshots Engine Script

variable {pairing : Pairing} {serde : Serde}

/-! ## What the store checks before it reads -/

/-- A producer's descriptor passes the collector's validation. -/
theorem validateSnapshotDescriptor_of_validated {descriptor : SnapshotDescriptor}
    (h : validateDescriptor descriptor = .ok ()) :
    validateSnapshotDescriptor descriptor = .ok () := by
  simp only [validateDescriptor, bind_eq_ok, exists_unit, reject_ok, not_or, not_not, ne_eq] at h
  obtain ⟨⟨hversion, hschema⟩, hsession, hproject, hexperiment, hrun, hattempt, hrole, -⟩ := h
  have hidentifier {field field' text : String}
      (htext : validateText field text 256 false = .ok ()) :
      validateName field' text = .ok () ∧ ¬ text.utf8ByteSize > 4096 := by
    obtain ⟨hblank, hsize⟩ := validateText_ok htext
    exact ⟨validateName_ok.mpr hblank, by omega⟩
  simp only [validateSnapshotDescriptor, bind_eq_ok, exists_unit, reject_ok, ne_eq, not_not]
  exact ⟨hversion, hschema, hidentifier hsession, hidentifier hproject, hidentifier hexperiment,
    hidentifier hrun, hidentifier hattempt, hidentifier hrole⟩

theorem Pairing.checkIds_runId (pairing : Pairing) :
    checkIds [pairing.source.runId] 1 = .ok () := by
  have h := pairing.producer.validated
  simp only [validateDescriptor, bind_eq_ok, exists_unit, reject_ok] at h
  obtain ⟨hblank, hsize⟩ := validateText_ok h.2.2.2.2.1
  rw [pairing.registered.1] at hblank hsize
  have hle : pairing.source.runId.utf8ByteSize ≤ 4096 := by omega
  simp [checkIds, hblank, hle]

/-- A page that a session's producer served. -/
theorem Pairing.checkPage_served {session : Session} {page : SnapshotHistoryResponse} {after : ℕ}
    (hsession : session.Invariant pairing.producer)
    (hserved : Served pairing.producer session.captured session.state after page) :
    checkPage pairing.source pairing.producer.descriptor page = .ok () :=
  checkPage_ok.mpr ⟨validateSnapshotDescriptor_of_validated pairing.producer.validated,
    hserved.wellFormed hsession.ring, hserved.session.symm, pairing.registered,
    pairing.identified, pairing.checkIds_runId⟩

/-! ## The parts of a step -/

/-- An event is at most one step of the session and at most one step of the store. -/
theorem step_parts {system system' : System} {event : Event}
    (h : pairing.step serde system event = some system') :
    (system'.session = system.session ∨
      ∃ action, system.session.step pairing.producer action = some system'.session) ∧
      (system'.store = system.store ∨
        ∃ action, system.store.step serde action = some system'.store) := by
  have hdeliver {serving : Serving} {now : ℕ → ℤ} {middle : System}
      (hrun : pairing.deliver serde serving now middle = some system') :
      system'.session = middle.session ∧
        ∃ action, middle.store.step serde action = some system'.store := by
    obtain ⟨store, hstep, rfl⟩ := Option.map_eq_some_iff.mp hrun
    exact ⟨rfl, _, hstep⟩
  have hserve {after limit : ℕ} {serving : Serving} {middle : System}
      (hrun : pairing.serve after limit system = .ok (serving, middle)) :
      middle.session = system.session ∧ middle.store = system.store := by
    unfold Pairing.serve at hrun
    cases hhistory : pairing.producer.history after limit system.session.state with
    | error reason => simp [hhistory, Except.map] at hrun
    | ok page =>
      simp only [hhistory, Except.map, Except.ok.injEq, Prod.mk.injEq] at hrun
      rw [← hrun.2]
      exact ⟨rfl, rfl⟩
  cases event with
  | produce action =>
    obtain ⟨session, haction, rfl⟩ := Option.map_eq_some_iff.mp h
    exact ⟨Or.inr ⟨action, haction⟩, Or.inl rfl⟩
  | serve after limit =>
    simp only [Pairing.step] at h
    split at h
    · rename_i heq
      obtain rfl := Option.some.inj h
      exact ⟨Or.inl (hserve heq).1, Or.inl (hserve heq).2⟩
    · obtain rfl := Option.some.inj h
      exact ⟨Or.inl rfl, Or.inl rfl⟩
  | deliver index now =>
    obtain ⟨serving, -, hrun⟩ := Option.bind_eq_some_iff.mp h
    exact ⟨Or.inl (hdeliver hrun).1, Or.inr (hdeliver hrun).2⟩
  | pull limit now =>
    simp only [Pairing.step] at h
    split at h
    · rename_i heq
      obtain ⟨hsession, hstore⟩ := hserve heq
      exact ⟨Or.inl ((hdeliver h).1.trans hsession), Or.inr (hstore ▸ (hdeliver h).2)⟩
    · obtain rfl := Option.some.inj h
      exact ⟨Or.inl rfl, Or.inl rfl⟩
  | operate action =>
    simp only [Pairing.step, Option.ite_none_right_eq_some] at h
    obtain ⟨store, haction, rfl⟩ := Option.map_eq_some_iff.mp h.2
    exact ⟨Or.inl rfl, Or.inr ⟨action, haction⟩⟩

/-- What is true of a system in a run: the joint invariant, and a store of its own history. -/
structure Running (pairing : Pairing) (serde : Serde) (system : System) : Prop where
  invariant : system.Invariant pairing
  store : system.store.Reachable serde

theorem Running.step {system system' : System} {event : Event} (h : Running pairing serde system)
    (hstep : pairing.step serde system event = some system') : Running pairing serde system' := by
  refine ⟨h.invariant.step hstep, ?_⟩
  rcases (step_parts hstep).2 with heq | ⟨action, haction⟩
  · exact heq ▸ h.store
  · have hrun : system.store.run serde [action] = some system'.store := by
      simpa [Store.run] using haction
    exact h.store.run hrun

theorem Running.run {events : List Event} {system system' : System}
    (h : Running pairing serde system) (hrun : pairing.run serde events system = some system') :
    Running pairing serde system' :=
  Runs.invariant (Running pairing serde) (fun hsystem hstep ↦ hsystem.step hstep) h hrun

theorem running_init : Running pairing serde .init := ⟨System.Invariant.init, ⟨[], rfl⟩⟩

/-- No step moves the cursor or the next sequence back, or takes a release back. -/
theorem Running.step_le {system system' : System} {event : Event}
    (h : Running pairing serde system) (hstep : pairing.step serde system event = some system') :
    pairing.cursor system.store ≤ pairing.cursor system'.store ∧
      system.session.state.nextSequence ≤ system'.session.state.nextSequence ∧
      (system'.session.released = false → system.session.released = false) := by
  obtain ⟨hsession, hstore⟩ := step_parts hstep
  refine ⟨?_, ?_⟩
  · rcases hstore with heq | ⟨action, haction⟩
    · exact (congrArg pairing.cursor heq).ge
    · exact (Store.step_consistent h.invariant.store haction).2.cursor _ _
  · rcases hsession with heq | ⟨action, haction⟩
    · rw [heq]
      exact ⟨le_rfl, id⟩
    · have hlength := (Session.step_grows h.invariant.session haction).1.length_le
      obtain ⟨_, heq, hsession', hflag⟩ := Session.step_invariant h.invariant.session action
      obtain rfl := Option.some.inj (haction.symm.trans heq)
      rw [h.invariant.session.ring.length_captured, hsession'.ring.length_captured] at hlength
      refine ⟨hlength, fun hopen ↦ ?_⟩
      rw [hopen, eq_comm, Bool.or_eq_false_iff] at hflag
      exact hflag.1

/-! ## One pull -/

/-- A fresh pull is accepted by the store and moves its cursor. -/
def Pairing.Advances (pairing : Pairing) (serde : Serde) (system : System) (limit : ℕ)
    (now : ℕ → ℤ) : Prop :=
  ∃ serving middle n system',
    pairing.serve (pairing.cursor system.store) limit system = .ok (serving, middle) ∧
    ((pairing.delivery serving.page now).ingest serde system.store.db).1 = .ok n ∧ 0 < n ∧
    pairing.step serde system (.pull limit now) = some system' ∧
    pairing.cursor system.store < pairing.cursor system'.store

/-- An open store takes every page, accepted or not. -/
theorem deliver_ready (pairing : Pairing) (serde : Serde) {system : System}
    (hready : system.store.phase = .ready) (serving : Serving) (now : ℕ → ℤ) :
    ∃ system', pairing.deliver serde serving now system = some system' ∧
      system'.session = system.session ∧ system'.store.phase = .ready ∧
      system'.store.db =
        (((pairing.delivery serving.page now).ingest serde).atomically system.store.db).2 := by
  have hstep : system.store.step serde (.ingestBatch [pairing.delivery serving.page now]) =
      some { system.store with
        db := (((pairing.delivery serving.page now).ingest serde).atomically system.store.db).2 } := by
    simp only [Store.step, hready, if_true, ingestBatch_eq, ingestSequentially]
  exact ⟨_, Option.map_eq_some_iff.mpr ⟨_, hstep, rfl⟩, rfl, hready, rfl⟩

/-- A request from the store's cursor is answered. -/
theorem Running.serve {system : System} (h : Running pairing serde system) {limit : ℕ}
    (hlimit : 1 ≤ limit ∧ limit ≤ MAX_SNAPSHOT_HISTORY_LIMIT) :
    ∃ serving, pairing.serve (pairing.cursor system.store) limit system =
        .ok (serving, { system with served := system.served ++ [serving] }) ∧
      Served pairing.producer system.session.captured system.session.state
        (pairing.cursor system.store) serving.page := by
  obtain ⟨page, hpage⟩ : ∃ page, pairing.producer.history (pairing.cursor system.store) limit
      system.session.state = .ok page := history_isOk h.invariant.cursor_le hlimit
  have hserve : pairing.serve (pairing.cursor system.store) limit system =
      .ok (⟨page, system.session.state⟩,
        { system with served := system.served ++ [⟨page, system.session.state⟩] }) := by
    simp [Pairing.serve, hpage, Except.map]
  exact ⟨_, hserve, (serve_sound h.invariant.session hserve).2.2⟩

/-- The store must be open to be pulled for. -/
theorem Running.ready_of_pull {system system' : System} (h : Running pairing serde system)
    {limit : ℕ} {now : ℕ → ℤ} (hlimit : 1 ≤ limit ∧ limit ≤ MAX_SNAPSHOT_HISTORY_LIMIT)
    (hstep : pairing.step serde system (.pull limit now) = some system') :
    system.store.phase = .ready := by
  obtain ⟨serving, hserve, -⟩ := h.serve hlimit
  simp only [Pairing.step, hserve] at hstep
  obtain ⟨store, hone, -⟩ := Option.map_eq_some_iff.mp hstep
  simp only [Store.step, Option.ite_none_right_eq_some] at hone
  exact hone.1

/-- A pull by an open store that is behind is accepted and moves the cursor. -/
theorem Running.pull {system : System} (h : Running pairing serde system)
    (hserde : serde.RoundTrip) (hretained : system.session.released = false)
    (hready : system.store.phase = .ready)
    (hbehind : pairing.cursor system.store < system.session.state.nextSequence) {limit : ℕ}
    (hlimit : 1 ≤ limit ∧ limit ≤ MAX_SNAPSHOT_HISTORY_LIMIT) (now : ℕ → ℤ) :
    pairing.Advances serde system limit now := by
  obtain ⟨serving, hserve, hserved⟩ := h.serve hlimit
  have hunreleased := h.invariant.session.unreleased hretained
  have hretained' : serving.page.oldestSequence < system.session.state.nextSequence := by
    have hpos := List.length_pos_iff.mpr (hunreleased.newest (by omega))
    have hle := h.invariant.session.ring.length_le
    rw [hserved.oldest, oldestSequence_eq h.invariant.session.ring rfl]
    omega
  have hcursor : system.store.db.cursor pairing.source.id serving.page.sourceSessionId =
      pairing.cursor system.store := by
    rw [hserved.session]
    rfl
  have hcontinues : Continues pairing.source serving.page system.store.db := by
    refine ⟨hserved.progress hretained' hbehind, ?_, fun hskip ↦ ?_⟩
    · rw [hcursor]
      exact hserved.next_eq
    · rw [hcursor] at hskip
      rw [hserved.dropped, if_pos hskip]
  obtain ⟨n, db, hrun, hpos, hmoved⟩ := hcontinues.accepted hserde h.store.consistent
    (h.store.accepting hserde hready) now (Pairing.checkPage_served h.invariant.session hserved)
  have hingest : ((pairing.delivery serving.page now).ingest serde).Returns system.store.db n db :=
    hrun
  have hready' : ({ system with served := system.served ++ [serving] } : System).store.phase =
      .ready := hready
  obtain ⟨system', hdeliver, -, -, hdb⟩ := deliver_ready pairing serde hready' serving now
  rw [atomically_ok.mpr hingest] at hdb
  refine ⟨serving, _, n, system', hserve, congrArg Prod.fst hingest, hpos, ?_, ?_⟩
  · simp only [Pairing.step, hserve, hdeliver]
  · have hlength := List.length_pos_iff.mpr hcontinues.nonempty
    have hnext := hserved.next_eq
    calc
      pairing.cursor system.store < serving.page.nextSequence := by omega
      _ = db.cursor pairing.source.id serving.page.sourceSessionId := hmoved.symm
      _ = pairing.cursor system'.store := by
        rw [hserved.session, Pairing.cursor, hdb]
        rfl

/-- Pulls of a released history find an empty page, which the store rejects. -/
theorem Running.pull_released {system : System} (h : Running pairing serde system)
    (hreleased : system.session.released = true)
    (hbehind : pairing.cursor system.store < system.session.state.nextSequence) {limit : ℕ}
    (hlimit : 1 ≤ limit ∧ limit ≤ MAX_SNAPSHOT_HISTORY_LIMIT) (now : ℕ → ℤ) :
    ∃ serving middle,
      pairing.serve (pairing.cursor system.store) limit system = .ok (serving, middle) ∧
      serving.page.snapshots = [] ∧
      (pairing.delivery serving.page now).ingest serde system.store.db =
        (.error (.invalidInput "empty or duplicate page cannot advance the snapshot cursor"),
          system.store.db) := by
  obtain ⟨serving, hserve, hserved⟩ := h.serve hlimit
  have holdest : serving.page.oldestSequence = system.session.state.nextSequence := by
    rw [hserved.oldest, oldestSequence_eq h.invariant.session.ring rfl,
      (h.invariant.session.released hreleased).2, List.length_nil, Nat.sub_zero]
  have hnext := hserved.next_eq
  have hle := hserved.next_le
  have hempty : serving.page.snapshots = [] := List.length_eq_zero_iff.mp (by omega)
  have hcursor : system.store.db.cursor pairing.source.id serving.page.sourceSessionId =
      pairing.cursor system.store := by
    rw [hserved.session]
    rfl
  have hskip : checkContinuity (pairing.cursor system.store) serving.page =
      invalid "empty or duplicate page cannot advance the snapshot cursor" := by
    have hpassed : serving.page.nextSequence > pairing.cursor system.store := by omega
    simp only [checkContinuity, hempty, List.find?_nil, hpassed, if_true]
  have hcheck := Pairing.checkPage_served h.invariant.session hserved
  refine ⟨serving, _, hserve, hempty, ?_⟩
  simp only [Delivery.ingest, Pairing.delivery, ingestPage, bind, Script.check, Script.read, hcheck,
    hcursor, hskip, invalid]

/-! ## Many pulls -/

/-- Once captures have stopped and nothing was released, enough pulls bring the store up to date,
whatever else happens between them. -/
theorem Running.drained {system system' : System} (h : Running pairing serde system)
    (hserde : serde.RoundTrip) {later : List Event}
    (hrun : pairing.run serde later system = some system')
    (hretained : system'.session.released = false)
    (hstopped : system'.session.state.nextSequence = system.session.state.nextSequence)
    (hlimits : ∀ limit now, .pull limit now ∈ later →
      1 ≤ limit ∧ limit ≤ MAX_SNAPSHOT_HISTORY_LIMIT)
    (hcount : system.session.state.nextSequence - pairing.cursor system.store ≤
      later.countP Event.isPull) :
    pairing.cursor system'.store = system'.session.state.nextSequence := by
  have hzero := Runs.drains
    (fun middle : System ↦ Running pairing serde middle ∧
      system.session.state.nextSequence ≤ middle.session.state.nextSequence)
    (fun middle ↦ middle.session.released = false ∧
      middle.session.state.nextSequence ≤ system.session.state.nextSequence)
    (fun middle ↦ system.session.state.nextSequence - pairing.cursor middle.store) Event.isPull
    (fun hmiddle hstep ↦ ⟨hmiddle.1.step hstep, hmiddle.2.trans (hmiddle.1.step_le hstep).2.1⟩)
    (fun hmiddle hstep hopen ↦ ⟨(hmiddle.1.step_le hstep).2.2 hopen.1,
      (hmiddle.1.step_le hstep).2.1.trans hopen.2⟩)
    (fun {middle event next} hmiddle hopen hmem hstep ↦ by
      have hle := (hmiddle.1.step_le hstep).1
      refine ⟨Nat.sub_le_sub_left hle _, fun hpull hpos ↦ ?_⟩
      cases event with
      | pull limit now =>
        have hlimit := hlimits limit now hmem
        have hbehind : pairing.cursor middle.store < middle.session.state.nextSequence := by
          have hnext := hmiddle.2
          omega
        obtain ⟨-, -, -, reached, -, -, -, hreached, hlt⟩ := hmiddle.1.pull hserde hopen.1
          (hmiddle.1.ready_of_pull hlimit hstep) hbehind hlimit now
        obtain rfl := Option.some.inj (hstep.symm.trans hreached)
        omega
      | produce | serve | deliver | operate => simp [Event.isPull] at hpull)
    ⟨h, le_rfl⟩ hrun ⟨hretained, hstopped.le⟩ hcount
  have hle := (h.run hrun).invariant.cursor_le
  omega

/-- Pulls by an open store never block. -/
theorem Running.pulls {system : System} (h : Running pairing serde system)
    (hready : system.store.phase = .ready) (pulls : List (ℕ × (ℕ → ℤ))) :
    ∃ system', pairing.run serde (pulls.map fun pull ↦ .pull pull.1 pull.2) system =
      some system' ∧ system'.session = system.session := by
  induction pulls generalizing system with
  | nil => exact ⟨system, rfl, rfl⟩
  | cons pull rest ih =>
    obtain ⟨middle, hstep, hsession, hready'⟩ : ∃ middle,
        pairing.step serde system (.pull pull.1 pull.2) = some middle ∧
          middle.session = system.session ∧ middle.store.phase = .ready := by
      simp only [Pairing.step]
      split
      · rename_i serving served heq
        obtain ⟨rfl, -, -⟩ := serve_sound h.invariant.session heq
        have hopen : ({ system with served := system.served ++ [serving] } : System).store.phase =
            .ready := hready
        obtain ⟨middle, hdeliver, hsession, hready', -⟩ :=
          deliver_ready pairing serde hopen serving pull.2
        exact ⟨middle, hdeliver, hsession, hready'⟩
      · exact ⟨system, rfl, rfl, hready⟩
    obtain ⟨system', hrest, hsame⟩ := ih (h.step hstep) hready'
    exact ⟨system', Runs.after_cons.mpr ⟨middle, hstep, hrest⟩, hsame.trans hsession⟩

/-! ## Progress -/

/-- The store is up to date: every captured sequence is stored or lies in a recorded gap. -/
def Pairing.Collected (pairing : Pairing) (system : System) : Prop :=
  pairing.cursor system.store = system.session.state.nextSequence ∧
    ∀ n < system.session.state.nextSequence,
      (∃ row, system.store.db.stored pairing.source.id pairing.sessionId n = some row) ∨
        ∃ gap ∈ pairing.lost system.store, n ∈ Set.Ico gap.1 gap.2

/-- In every run: while history was not released, a fresh pull by an open store that is behind is
accepted and moves the cursor, so that after captures stop enough pulls bring the store up to date,
and pulls can always be made.  Once history was released, fresh pulls by a store that is behind are
rejected without effect. -/
theorem Pairing.collection_progress (hserde : serde.RoundTrip) {events : List Event}
    {system : System} (h : pairing.run serde events .init = some system) :
    (system.session.released = false → system.store.phase = .ready →
      pairing.cursor system.store < system.session.state.nextSequence →
      ∀ limit now, 1 ≤ limit ∧ limit ≤ MAX_SNAPSHOT_HISTORY_LIMIT →
        pairing.Advances serde system limit now) ∧
      (∀ later system', pairing.run serde later system = some system' →
        system'.session.released = false →
        system'.session.state.nextSequence = system.session.state.nextSequence →
        (∀ limit now, .pull limit now ∈ later →
          1 ≤ limit ∧ limit ≤ MAX_SNAPSHOT_HISTORY_LIMIT) →
        system.session.state.nextSequence - pairing.cursor system.store ≤
          later.countP Event.isPull →
        pairing.Collected system') ∧
      (system.store.phase = .ready → ∀ pulls : List (ℕ × (ℕ → ℤ)), ∃ system',
        pairing.run serde (pulls.map fun pull ↦ .pull pull.1 pull.2) system = some system' ∧
          system'.session = system.session) ∧
      (system.session.released = true →
        pairing.cursor system.store < system.session.state.nextSequence →
        ∀ limit now, 1 ≤ limit ∧ limit ≤ MAX_SNAPSHOT_HISTORY_LIMIT → ∃ serving middle,
          pairing.serve (pairing.cursor system.store) limit system = .ok (serving, middle) ∧
          serving.page.snapshots = [] ∧
          (pairing.delivery serving.page now).ingest serde system.store.db =
            (.error (.invalidInput "empty or duplicate page cannot advance the snapshot cursor"),
              system.store.db)) := by
  have hsystem := running_init.run h
  refine ⟨fun hretained hready hbehind limit now hlimit ↦
      hsystem.pull hserde hretained hready hbehind hlimit now,
    fun later system' hrun hretained hstopped hlimits hcount ↦ ?_, hsystem.pulls,
    fun hreleased hbehind limit now hlimit ↦ hsystem.pull_released hreleased hbehind hlimit now⟩
  have hcursor := hsystem.drained hserde hrun hretained hstopped hlimits hcount
  refine ⟨hcursor, fun n hn ↦ ?_⟩
  have hcover := (hsystem.run hrun).store.consistent.cover pairing.source.id pairing.sessionId
  rw [← hcursor] at hn
  rcases (hcover.covers n).mp hn with hstored | hlost
  · exact Or.inl (mem_storedSequences_iff_stored.mp hstored)
  · exact Or.inr hlost

/-- Two snapshots are captured, the first is evicted, and the store is pulled for. -/
def sampleBehind : List Event :=
  openNew.map .operate ++ [sampleCapture 100, sampleCapture 101]

theorem Pairing.collection_progress_sample :
    ∃ system system', samplePairing.run sampleSerde sampleBehind .init = some system ∧
      samplePairing.Advances sampleSerde system 64 (fun _ ↦ 200) ∧
      samplePairing.run sampleSerde [.pull 64 fun _ ↦ 200, .pull 1 fun _ ↦ 201] system =
        some system' ∧
      samplePairing.Collected system' := by
  have hsample : ((samplePairing.run sampleSerde sampleBehind .init).map fun system ↦
      (system.session.released, system.store.phase, samplePairing.cursor system.store,
        system.session.state.nextSequence)) = some (false, .ready, 0, 2) := by decide +kernel
  obtain ⟨system, hrun, hviews⟩ := Option.map_eq_some_iff.mp hsample
  simp only [Prod.mk.injEq] at hviews
  obtain ⟨hretained, hready, hcursor, hnext⟩ := hviews
  have hserde : sampleSerde.RoundTrip := Serde.inverse_roundTrip _
  obtain ⟨hfresh, henough, hpulls, -⟩ := Pairing.collection_progress hserde hrun
  obtain ⟨system', hlater, hsession⟩ := hpulls hready [(64, fun _ ↦ 200), (1, fun _ ↦ 201)]
  refine ⟨system, system', hrun, hfresh hretained hready (by omega) 64 _ (by decide), hlater,
    henough _ system' hlater (hsession ▸ hretained) (by rw [hsession]) ?_ ?_⟩
  · intro limit now hmem
    simp only [List.map_cons, List.map_nil, List.mem_cons, Event.pull.injEq, List.not_mem_nil,
      or_false] at hmem
    rcases hmem with ⟨rfl, -⟩ | ⟨rfl, -⟩ <;> decide
  · rw [hcursor, hnext]
    decide

/-- The producer is closed before the store has pulled what it captured. -/
def sampleReleased : List Event :=
  openNew.map .operate ++ [sampleCapture 100, .produce .sealAndReleaseHistory]

/-- An open store that is behind a released history, and no pull moves its cursor. -/
theorem Pairing.released_history_stalls :
    ∃ system, samplePairing.run sampleSerde sampleReleased .init = some system ∧
      system.store.phase = .ready ∧
      samplePairing.cursor system.store < system.session.state.nextSequence ∧
      ∀ limit now, 1 ≤ limit ∧ limit ≤ MAX_SNAPSHOT_HISTORY_LIMIT →
        ¬ samplePairing.Advances sampleSerde system limit now := by
  have hsample : ((samplePairing.run sampleSerde sampleReleased .init).map fun system ↦
      (system.session.released, system.store.phase, samplePairing.cursor system.store,
        system.session.state.nextSequence)) = some (true, .ready, 0, 1) := by decide +kernel
  obtain ⟨system, hrun, hviews⟩ := Option.map_eq_some_iff.mp hsample
  simp only [Prod.mk.injEq] at hviews
  obtain ⟨hreleased, hready, hcursor, hnext⟩ := hviews
  refine ⟨system, hrun, hready, by omega, fun limit now hlimit hadvances ↦ ?_⟩
  obtain ⟨serving, middle, hserve, -, hrejected⟩ :=
    (running_init.run hrun).pull_released hreleased (by omega) hlimit now
  obtain ⟨serving', served, n, moved, hserve', haccepted, -⟩ := hadvances
  obtain ⟨rfl, -⟩ := Prod.mk.inj (Except.ok.inj (hserve.symm.trans hserve'))
  rw [hrejected] at haccepted
  simp at haccepted

end Rvx.Collector
