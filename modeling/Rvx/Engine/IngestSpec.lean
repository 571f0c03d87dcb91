import Rvx.Engine.SnapshotStore
import Rvx.Lib.ExactCover

/-!
# What ingestion does

The effect of the statements of one stored snapshot, of the loop over a page, and of a whole page,
read off from a run that returned.  A page either finds all its snapshots stored and changes
nothing, or stores exactly its part from the cursor on and then moves the cursor.
-/

namespace Rvx.Engine

open Core Check Script Database

variable {serde : Serde} {source : Source} {session : String}

/-! ## One snapshot -/

/-- Storing one new snapshot. -/
structure StoredOne (serde : Serde) (source : Source) (session : String) (ingested : ℤ)
    (snapshot : StateSnapshot) (db db' : Database) : Prop where
  fresh : db.stored source.id session snapshot.sequence = none
  snapshots : db'.snapshots =
    db.snapshots ++ [rowOf source session ingested snapshot (db.snapshotSeq + 1)]
  snapshotSeq : db'.snapshotSeq = db.snapshotSeq + 1
  cursors : db'.cursors = db.cursors
  gaps : db'.gaps = db.gaps
  chart : ∃ chart chart', db.chart = some chart ∧ db'.chart = some chart' ∧
    (ChartIndex.insert (db.snapshotSeq + 1) source.runId source.id snapshot).Returns chart () chart'
  artifacts : ∃ artifacts artifacts', db.artifacts = some artifacts ∧
    db'.artifacts = some artifacts' ∧
    (ArtifactIndex.insert serde.artifactMessage (db.snapshotSeq + 1) source.runId source.id
      snapshot).Returns artifacts () artifacts'
  heads : (isTrackerEvent snapshot.state.value = .ok true ∧ db'.heads = db.heads) ∨
    (isTrackerEvent snapshot.state.value = .ok false ∧ ∃ heads, db.heads = some heads ∧
      db'.heads = some (upsertHead ⟨source.runId, source.id, db.snapshotSeq + 1⟩ heads))

theorem insertSnapshot_ok {row : ℕ → SnapshotRow} {db db' : Database} :
    insertSnapshot row db = .ok db' ↔
      (∀ old ∈ db.snapshots, snapshotKey old ≠ snapshotKey (row (db.snapshotSeq + 1))) ∧
        db' = { db with
          snapshots := db.snapshots ++ [row (db.snapshotSeq + 1)]
          snapshotSeq := db.snapshotSeq + 1 } := by
  unfold insertSnapshot
  cases hinsert : Table.insertUnique snapshotKey (row (db.snapshotSeq + 1)) db.snapshots with
  | none =>
    constructor
    · simp
    · rintro ⟨hfresh, -⟩
      rw [Table.insertUnique_eq_some.mpr ⟨hfresh, rfl⟩] at hinsert
      simp at hinsert
  | some rows =>
    obtain ⟨hfresh, rfl⟩ := Table.insertUnique_eq_some.mp hinsert
    simp only [Except.ok.injEq]
    exact ⟨fun h ↦ ⟨hfresh, h.symm⟩, fun h ↦ h.2.symm⟩

theorem storedOne_iff {ingested : ℤ} {snapshot : StateSnapshot} {db db' : Database} :
    (storeSnapshot serde source session ingested snapshot).Returns db () db' ↔
      StoredOne serde source session ingested snapshot db db' := by
  simp only [storeSnapshot, onChart, onArtifacts, onHeads, returns_bind, returns_attempt,
    returns_read, returns_onSome, returns_check, mapError_eq_ok, returns_ite, returns_pure,
    returns_modify, insertSnapshot_ok]
  constructor
  · rintro ⟨_, _, ⟨hfresh, rfl⟩, _, _, ⟨rfl, rfl⟩, _, _, ⟨chart, hchart, chart', hchart', rfl⟩,
      _, _, ⟨artifacts, hart, artifacts', hart', rfl⟩, event, _, ⟨hevent, rfl⟩, hheads⟩
    have hkind : (isTrackerEvent snapshot.state.value = .ok true ∧ db'.heads = db.heads) ∨
        (isTrackerEvent snapshot.state.value = .ok false ∧ ∃ heads, db.heads = some heads ∧
          db'.heads = some (upsertHead ⟨source.runId, source.id, db.snapshotSeq + 1⟩ heads)) := by
      rcases hheads with ⟨htrue, -, rfl⟩ | ⟨hfalse, heads, hsome, _, rfl, rfl⟩
      · exact Or.inl ⟨htrue ▸ hevent, rfl⟩
      · exact Or.inr ⟨(Bool.not_eq_true event ▸ hfalse) ▸ hevent, heads, hsome, rfl⟩
    rcases hheads with ⟨-, -, rfl⟩ | ⟨-, heads, hsome, _, rfl, rfl⟩
    all_goals
      exact ⟨Table.lookup_eq_none.mpr hfresh, rfl, rfl, rfl, rfl, ⟨chart, chart', hchart, rfl, hchart'⟩,
        ⟨artifacts, artifacts', hart, rfl, hart'⟩, hkind⟩
  · intro h
    obtain ⟨chart, chart', hchart, hdb, hchart'⟩ := h.chart
    obtain ⟨artifacts, artifacts', hart, hdb', hart'⟩ := h.artifacts
    have hfresh := Table.lookup_eq_none.mp h.fresh
    refine ⟨(), _, ⟨hfresh, rfl⟩, _, _, ⟨rfl, rfl⟩, (), _, ⟨chart, hchart, chart', hchart', rfl⟩,
      (), _, ⟨artifacts, hart, artifacts', hart', rfl⟩, ?_⟩
    obtain ⟨snapshots, snapshotSeq, heads, cursors, gaps, charts, index⟩ := db
    obtain ⟨snapshots', snapshotSeq', heads', cursors', gaps', charts', index'⟩ := db'
    have hrows := h.snapshots
    have hseq := h.snapshotSeq
    have hcursors := h.cursors
    have hgaps := h.gaps
    have hheads := h.heads
    dsimp only at hrows hseq hcursors hgaps hheads hdb hdb'
    subst hrows hseq hcursors hgaps hdb hdb'
    rcases hheads with ⟨hevent, heq⟩ | ⟨hevent, rows, hsome, heq⟩
    · exact ⟨true, _, ⟨hevent, rfl⟩, Or.inl ⟨rfl, trivial, by rw [heq]⟩⟩
    · exact ⟨false, _, ⟨hevent, rfl⟩, Or.inr ⟨by simp, rows, hsome, _, rfl, by rw [heq]⟩⟩

/-! ## The loop over a page -/

/-- New snapshots stored one after another. -/
inductive StoredAll (serde : Serde) (source : Source) (session : String) :
    List StateSnapshot → Database → Database → Prop
  | nil (db : Database) : StoredAll serde source session [] db db
  | cons {snapshot : StateSnapshot} {rest : List StateSnapshot} {db middle db' : Database}
      (ingested : ℤ) (first : StoredOne serde source session ingested snapshot db middle)
      (others : StoredAll serde source session rest middle db') :
      StoredAll serde source session (snapshot :: rest) db db'

/-- A snapshot the database already holds, under the same run and with the same contents. -/
def Holds (serde : Serde) (source : Source) (session : String) (db : Database)
    (snapshot : StateSnapshot) : Prop :=
  ∃ row, db.stored source.id session snapshot.sequence = some row ∧ row.runId = source.runId ∧
    serde.snapshot row.snapshotJson = some snapshot

/-- The part of a page from the cursor on. -/
def newPart (committed : ℕ) (snapshots : List StateSnapshot) : List StateSnapshot :=
  snapshots.filter fun snapshot ↦ committed ≤ snapshot.sequence

theorem StoredOne.stored_of_ne {ingested : ℤ} {snapshot : StateSnapshot} {db db' : Database}
    (h : StoredOne serde source session ingested snapshot db db') {sequence : ℕ}
    (hne : sequence ≠ snapshot.sequence) :
    db'.stored source.id session sequence = db.stored source.id session sequence := by
  have hnone : Table.lookup snapshotKey (source.id, session, sequence)
      [rowOf source session ingested snapshot (db.snapshotSeq + 1)] = none := by
    simp [Table.lookup, snapshotKey, rowOf, hne.symm]
  unfold stored
  rw [h.snapshots, Table.lookup_append, hnone, Option.or_none]

/-- The loop stores exactly the part from the cursor on; everything before it is held already. -/
theorem ingestSnapshots_returns {now : ℕ → ℤ} {committed accepted index n : ℕ}
    {snapshots : List StateSnapshot} {db db' : Database}
    (hnodup : (snapshots.map StateSnapshot.sequence).Nodup)
    (hfresh : ∀ snapshot ∈ snapshots, committed ≤ snapshot.sequence →
      db.stored source.id session snapshot.sequence = none)
    (h : (ingestSnapshots serde now source session committed accepted index snapshots).Returns
      db n db') :
    (∀ snapshot ∈ snapshots, snapshot.sequence < committed →
      Holds serde source session db snapshot) ∧
      n = accepted + (newPart committed snapshots).length ∧
      StoredAll serde source session (newPart committed snapshots) db db' := by
  induction snapshots generalizing accepted index db with
  | nil =>
    simp only [ingestSnapshots, returns_pure] at h
    obtain ⟨rfl, rfl⟩ := h
    exact ⟨by simp, rfl, .nil _⟩
  | cons snapshot rest ih =>
    simp only [List.map_cons, List.nodup_cons, List.mem_map, not_exists, not_and] at hnodup
    simp only [List.mem_cons, forall_eq_or_imp] at hfresh ⊢
    simp only [ingestSnapshots, returns_bind, returns_read] at h
    obtain ⟨_, _, ⟨rfl, rfl⟩, hbody⟩ := h
    cases hstored : db.stored source.id session snapshot.sequence with
    | some row =>
      -- a stored snapshot lies before the cursor and must agree
      have hlt : snapshot.sequence < committed := by
        by_contra hge
        rw [hfresh.1 (Nat.not_lt.mp hge)] at hstored
        simp at hstored
      simp only [hstored] at hbody
      cases hdecode : serde.snapshot row.snapshotJson with
      | none => simp [hdecode, invalid] at hbody
      | some previous =>
        simp only [hdecode, returns_ite, returns_check, invalid, ne_eq, reduceCtorEq, false_and,
          and_false, false_or, not_not] at hbody
        obtain ⟨hrun, hequal, hrest⟩ := hbody
        obtain ⟨hheld, hcount, hall⟩ := ih hnodup.2 hfresh.2 hrest
        have hskip : newPart committed (snapshot :: rest) = newPart committed rest := by
          simp [newPart, Nat.not_le.mpr hlt]
        rw [hskip]
        exact ⟨⟨fun _ ↦ ⟨row, hstored, hrun, by rw [hdecode, hequal]⟩, hheld⟩, hcount, hall⟩
    | none =>
      simp only [hstored, returns_ite, returns_check, invalid, reduceCtorEq, false_and, and_false,
        false_or, returns_bind, not_lt] at hbody
      obtain ⟨hge, _, middle, hfirst, hrest⟩ := hbody
      have hone := storedOne_iff.mp hfirst
      obtain ⟨hheld, hcount, hall⟩ := ih hnodup.2 (fun other hother hge' ↦ by
        rw [hone.stored_of_ne (hnodup.1 other hother)]
        exact hfresh.2 other hother hge') hrest
      have htake : newPart committed (snapshot :: rest) = snapshot :: newPart committed rest := by
        simp [newPart, hge]
      rw [htake]
      refine ⟨⟨fun hlt ↦ absurd hge (Nat.not_le.mpr hlt), fun other hother hlt ↦ ?_⟩, ?_,
        .cons _ hone hall⟩
      · obtain ⟨row, hrow, hheld⟩ := hheld other hother hlt
        rw [hone.stored_of_ne (hnodup.1 other hother)] at hrow
        exact ⟨row, hrow, hheld⟩
      · rw [hcount, List.length_cons]
        omega

/-- The converse: held snapshots are skipped and new ones stored, so the loop returns. -/
theorem ingestSnapshots_of_stored {now : ℕ → ℤ} {committed : ℕ} (accepted index : ℕ)
    {snapshots : List StateSnapshot} {db : Database} (invariant : Database → Prop)
    (hinv : invariant db)
    (hnodup : (snapshots.map StateSnapshot.sequence).Nodup)
    (hheld : ∀ snapshot ∈ snapshots, snapshot.sequence < committed →
      Holds serde source session db snapshot)
    (hfresh : ∀ snapshot ∈ snapshots, committed ≤ snapshot.sequence →
      db.stored source.id session snapshot.sequence = none)
    (hstore : ∀ snapshot ∈ snapshots, ∀ ingested middle, invariant middle →
      middle.stored source.id session snapshot.sequence = none →
      ∃ next, StoredOne serde source session ingested snapshot middle next ∧ invariant next) :
    ∃ n db', (ingestSnapshots serde now source session committed accepted index snapshots).Returns
      db n db' := by
  induction snapshots generalizing accepted index db with
  | nil => exact ⟨accepted, db, by simp [ingestSnapshots]⟩
  | cons snapshot rest ih =>
    simp only [List.map_cons, List.nodup_cons, List.mem_map, not_exists, not_and] at hnodup
    simp only [List.mem_cons, forall_eq_or_imp] at hheld hfresh hstore
    simp only [ingestSnapshots, returns_bind, returns_read]
    by_cases hlt : snapshot.sequence < committed
    · obtain ⟨row, hrow, hrun, hdecode⟩ := hheld.1 hlt
      obtain ⟨n, db', hrest⟩ := ih accepted (index + 1) hinv hnodup.2 hheld.2
        hfresh.2 hstore.2
      refine ⟨n, db', _, _, ⟨rfl, rfl⟩, ?_⟩
      simpa [hrow, hrun, hdecode] using hrest
    · have hnone := hfresh.1 (Nat.not_lt.mp hlt)
      obtain ⟨middle, hone, hmiddle⟩ := hstore.1 (now index) db hinv hnone
      have hkeep (other : StateSnapshot) (hother : other ∈ rest) :
          middle.stored source.id session other.sequence =
            db.stored source.id session other.sequence :=
        hone.stored_of_ne (hnodup.1 other hother)
      obtain ⟨n, db', hrest⟩ := ih (accepted + 1) (index + 1) hmiddle hnodup.2
        (fun other hother hbefore ↦ by
          obtain ⟨row, hrow, hheld'⟩ := hheld.2 other hother hbefore
          exact ⟨row, (hkeep other hother).trans hrow, hheld'⟩)
        (fun other hother hge ↦ (hkeep other hother).trans (hfresh.2 other hother hge)) hstore.2
      refine ⟨n, db', _, _, ⟨rfl, rfl⟩, ?_⟩
      simp only [hnone, hlt, if_false, returns_bind]
      exact ⟨(), middle, storedOne_iff.mpr hone, hrest⟩

/-! ## A page -/

theorem checkPage_ok {descriptor : SnapshotDescriptor} {page : SnapshotHistoryResponse} :
    checkPage source descriptor page = .ok () ↔
      validateSnapshotDescriptor descriptor = .ok () ∧ page.WellFormed ∧
        descriptor.sourceSessionId = page.sourceSessionId ∧
        (descriptor.runId = source.runId ∧ descriptor.attemptId = source.attemptId ∧
          descriptor.role = source.role) ∧
        checkIds [source.id] 1 = .ok () ∧ checkIds [source.runId] 1 = .ok () := by
  simp only [checkPage, bind_eq_ok, exists_unit, mapError_eq_ok, reject_ok, wellFormed_iff,
    not_or, ne_eq, not_not]

/-- The sequences of the part of a consecutive run from the cursor on. -/
theorem newPart_sequences (committed : ℕ) {first count : ℕ} {snapshots : List StateSnapshot}
    (h : snapshots.map StateSnapshot.sequence = List.range' first count) :
    (newPart committed snapshots).map StateSnapshot.sequence =
      List.range' (max first committed) (first + count - max first committed) := by
  unfold newPart
  induction snapshots generalizing first count with
  | nil =>
    have hcount : count = 0 := by simpa using congrArg List.length h.symm
    have hzero : first + count - max first committed = 0 := by omega
    rw [hzero]
    rfl
  | cons snapshot rest ih =>
    cases count with
    | zero => simp at h
    | succ count =>
      rw [List.map_cons, List.range'_succ, List.cons.injEq] at h
      rw [List.filter_cons]
      split
      · rename_i hge
        have hge' : committed ≤ first := by simpa [h.1] using hge
        have hcount : first + (count + 1) - max first committed =
            (first + 1 + count - max (first + 1) committed) + 1 := by omega
        rw [List.map_cons, ih h.2, hcount, List.range'_succ]
        have hmax : max (first + 1) committed = max first committed + 1 := by omega
        rw [hmax, h.1]
        congr 1
        omega
      · rename_i hlt
        have hlt' : first < committed := by simpa [h.1] using hlt
        rw [ih h.2]
        congr 1 <;> omega

/-- What continuity means for a well-formed page: either nothing is new and the cursor is not
passed, or the new part runs from the expected sequence to the page's next one. -/
theorem checkContinuity_ok {committed : ℕ} {page : SnapshotHistoryResponse}
    (hpage : page.WellFormed) :
    checkContinuity committed page = .ok () ↔
      (newPart committed page.snapshots = [] ∧ page.nextSequence ≤ committed) ∨
      (newPart committed page.snapshots ≠ [] ∧ max committed page.oldestSequence < page.nextSequence ∧
        (newPart committed page.snapshots).map StateSnapshot.sequence =
          List.range' (max committed page.oldestSequence)
            (page.nextSequence - max committed page.oldestSequence) ∧
        (committed < page.oldestSequence → page.droppedBefore = some page.oldestSequence)) := by
  have hsequences := newPart_sequences committed hpage.consecutive
  have hroom := hpage.room
  have hend : page.nextSequence - page.snapshots.length + page.snapshots.length =
      page.nextSequence := by omega
  rw [hend] at hsequences
  have hfind : (page.snapshots.find? fun snapshot ↦ decide (snapshot.sequence ≥ committed)) =
      (newPart committed page.snapshots).head? := by
    rw [newPart, List.head?_filter]
  unfold checkContinuity
  simp only [hfind]
  cases hnew : newPart committed page.snapshots with
  | nil =>
    simp only [List.head?_nil, gt_iff_lt]
    split
    · rename_i hgt
      simp [invalid, Nat.not_le.mpr hgt]
    · rename_i hle
      simpa using Nat.not_lt.mp hle
  | cons first rest =>
    rw [hnew] at hsequences
    have hfirst : first.sequence = max (page.nextSequence - page.snapshots.length) committed ∧
        first.sequence < page.nextSequence := by
      cases hcount : page.nextSequence - max (page.nextSequence - page.snapshots.length) committed with
      | zero =>
        rw [hcount] at hsequences
        simp at hsequences
      | succ count =>
        rw [hcount, List.map_cons, List.range'_succ, List.cons.injEq] at hsequences
        exact ⟨hsequences.1, by omega⟩
    simp only [List.head?_cons, ne_eq, reduceCtorEq, false_and, not_false_eq_true, true_and,
      false_or]
    split
    · rename_i hskip
      simp only [invalid, reduceCtorEq, false_iff, not_and]
      intro _ hmap
      rw [hsequences] at hmap
      have hhead := congrArg List.head? hmap
      have hlength := congrArg List.length hmap
      simp only [List.length_range'] at hlength
      omega
    · rename_i hexpected
      have hexpected : first.sequence = max committed page.oldestSequence := not_not.mp hexpected
      have hmap : (first :: rest).map StateSnapshot.sequence =
          List.range' (max committed page.oldestSequence)
            (page.nextSequence - max committed page.oldestSequence) := by
        rw [hsequences, ← hfirst.1, hexpected]
      have hlt : max committed page.oldestSequence < page.nextSequence := by omega
      split
      · rename_i hgap
        simp only [invalid, reduceCtorEq, false_iff, not_and, not_forall]
        intro _ _
        exact ⟨hgap.1, hgap.2⟩
      · rename_i hgap
        simp only [true_iff]
        refine ⟨hlt, hmap, fun hskip ↦ ?_⟩
        by_contra hundeclared
        exact hgap ⟨hskip, hundeclared⟩

/-- The gap and cursor rows written after a page was accepted. -/
structure Advanced (source : Source) (committed : ℕ) (page : SnapshotHistoryResponse)
    (db db' : Database) : Prop where
  snapshots : db'.snapshots = db.snapshots
  snapshotSeq : db'.snapshotSeq = db.snapshotSeq
  heads : db'.heads = db.heads
  chart : db'.chart = db.chart
  artifacts : db'.artifacts = db.artifacts
  gaps : ∃ time, db'.gaps = db.gaps ++ if committed < page.oldestSequence then
    [⟨source.id, page.sourceSessionId, committed, page.oldestSequence, time⟩] else []
  cursors : ∃ time, db'.cursors = (db.upsertCursor ⟨source.id, page.sourceSessionId,
    max committed page.nextSequence, time⟩).cursors

theorem advance_returns {now : ℕ → ℤ} {committed : ℕ} {page : SnapshotHistoryResponse}
    {db db' : Database} (h : (advance now source committed page).Returns db () db') :
    Advanced source committed page db db' := by
  simp only [advance, returns_ite, returns_bind, returns_modify, gt_iff_lt] at h
  rcases h with ⟨hgap, _, _, rfl, rfl⟩ | ⟨hgap, _, _, ⟨-, rfl⟩, rfl⟩
  · exact ⟨rfl, rfl, rfl, rfl, rfl, ⟨_, by rw [if_pos hgap]; rfl⟩, ⟨_, rfl⟩⟩
  · exact ⟨rfl, rfl, rfl, rfl, rfl, ⟨0, by rw [if_neg hgap, List.append_nil]; rfl⟩, ⟨_, rfl⟩⟩

theorem advance_isOk (now : ℕ → ℤ) (committed : ℕ) (page : SnapshotHistoryResponse)
    (db : Database) : ∃ db', (advance now source committed page).Returns db () db' := by
  by_cases hgap : page.oldestSequence > committed
  · simp [advance, hgap]
  · simp [advance, hgap]

/-- The outcome of an accepted page. -/
inductive Ingested (serde : Serde) (source : Source) (page : SnapshotHistoryResponse)
    (db : Database) : ℕ → Database → Prop
  /-- Every snapshot was held already and the page does not pass the cursor. -/
  | replayed (held : ∀ snapshot ∈ page.snapshots,
        snapshot.sequence < db.cursor source.id page.sourceSessionId ∧
          Holds serde source page.sourceSessionId db snapshot)
      (behind : page.nextSequence ≤ db.cursor source.id page.sourceSessionId) :
      Ingested serde source page db 0 db
  /-- The part from the cursor on was stored, then the cursor moved to the page's next sequence. -/
  | extended {new : List StateSnapshot} {middle db' : Database}
      (part : new = newPart (db.cursor source.id page.sourceSessionId) page.snapshots)
      (nonempty : new ≠ [])
      (held : ∀ snapshot ∈ page.snapshots,
        snapshot.sequence < db.cursor source.id page.sourceSessionId →
          Holds serde source page.sourceSessionId db snapshot)
      (ahead : max (db.cursor source.id page.sourceSessionId) page.oldestSequence <
        page.nextSequence)
      (sequences : new.map StateSnapshot.sequence =
        List.range' (max (db.cursor source.id page.sourceSessionId) page.oldestSequence)
          (page.nextSequence - max (db.cursor source.id page.sourceSessionId) page.oldestSequence))
      (stored : StoredAll serde source page.sourceSessionId new db middle)
      (advanced : Advanced source (db.cursor source.id page.sourceSessionId) page middle db') :
      Ingested serde source page db new.length db'

/-- Nothing at or after the cursor is stored. -/
def CursorBounds (source : Source) (session : String) (db : Database) : Prop :=
  ∀ sequence, db.cursor source.id session ≤ sequence →
    db.stored source.id session sequence = none

theorem ingestPage_returns {now : ℕ → ℤ} {descriptor : SnapshotDescriptor}
    {page : SnapshotHistoryResponse} {n : ℕ} {db db' : Database}
    (hbounds : CursorBounds source page.sourceSessionId db)
    (h : (ingestPage serde now source descriptor page).Returns db n db') :
    checkPage source descriptor page = .ok () ∧ Ingested serde source page db n db' := by
  simp only [ingestPage, returns_bind, returns_check, returns_read] at h
  obtain ⟨_, _, ⟨hcheck, rfl⟩, _, _, ⟨rfl, rfl⟩, _, _, ⟨hcontinuity, rfl⟩, accepted, middle, hloop,
    hrest⟩ := h
  have hpage := (checkPage_ok.mp hcheck).2.1
  have hnodup : (page.snapshots.map StateSnapshot.sequence).Nodup := by
    rw [hpage.consecutive]
    exact List.nodup_range'
  obtain ⟨hheld, hcount, hall⟩ := ingestSnapshots_returns hnodup
    (fun snapshot _ hge ↦ hbounds snapshot.sequence hge) hloop
  rw [Nat.zero_add] at hcount
  refine ⟨hcheck, ?_⟩
  rcases (checkContinuity_ok hpage).mp hcontinuity with ⟨hnone, hbehind⟩ |
    ⟨hsome, hahead, hsequences, -⟩
  · rw [hnone] at hcount hall
    cases hall
    rw [hcount] at hrest
    simp only [List.length_nil, if_true, returns_pure] at hrest
    obtain ⟨rfl, rfl⟩ := hrest
    refine .replayed (fun snapshot hmem ↦ ?_) hbehind
    have hlt : snapshot.sequence < db.cursor source.id page.sourceSessionId := by
      have hnot := List.filter_eq_nil_iff.mp hnone snapshot hmem
      simpa using hnot
    exact ⟨hlt, hheld snapshot hmem hlt⟩
  · have hpos : accepted ≠ 0 := by
      rw [hcount]
      exact fun hzero ↦ hsome (List.length_eq_zero_iff.mp hzero)
    simp only [hpos, if_false, returns_bind, returns_pure] at hrest
    obtain ⟨_, db'', hadvance, rfl, rfl⟩ := hrest
    rw [hcount]
    exact .extended rfl hsome hheld hahead hsequences hall (advance_returns hadvance)

end Rvx.Engine
