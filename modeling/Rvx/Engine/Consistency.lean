import Rvx.Engine.IngestSpec

/-!
# Consistency of the raw tables

The invariant of snapshots, gaps and cursors: rows are numbered in ascending order and written from
valid snapshots, and for every session the stored sequences and the recorded gaps cover exactly the
sequences below the cursor.  Ingesting a page keeps it, keeps every stored row and never moves a
cursor back.
-/

namespace Rvx.Engine

open Core Check Script Database

variable {serde : Serde} {source : Source} {session : String}

/-- A stored row and the snapshot it was written from. -/
structure WrittenFrom (row : SnapshotRow) (snapshot : StateSnapshot) : Prop where
  valid : snapshot.Valid
  json : row.snapshotJson = snapshot.encode
  sequence : row.sequence = snapshot.sequence
  session : row.sourceSessionId = snapshot.sourceSessionId
  observed : row.observedAtNs = snapshot.observedAtNs

/-- The rows of the snapshot table. -/
structure RowsValid (db : Database) : Prop where
  ids_ascending : (db.snapshots.map SnapshotRow.id).Pairwise (· < ·)
  ids_pos : ∀ row ∈ db.snapshots, 0 < row.id
  ids_le : ∀ row ∈ db.snapshots, row.id ≤ db.snapshotSeq
  written : ∀ row ∈ db.snapshots, ∃ snapshot, WrittenFrom row snapshot

structure Consistent (db : Database) : Prop where
  rows : RowsValid db
  cover : ∀ source session, ExactCover (db.cursor source session)
    (db.storedSequences source session) (db.lostIntervals source session)

/-- Nothing was forgotten and no cursor moved back. -/
structure Grows (db db' : Database) : Prop where
  snapshots : db.snapshots <+: db'.snapshots
  cursor : ∀ source session, db.cursor source session ≤ db'.cursor source session

theorem Grows.refl (db : Database) : Grows db db := ⟨List.prefix_rfl, fun _ _ ↦ le_rfl⟩

theorem Grows.trans {db db' db'' : Database} (h : Grows db db') (h' : Grows db' db'') :
    Grows db db'' :=
  ⟨h.snapshots.trans h'.snapshots,
    fun source session ↦ (h.cursor source session).trans (h'.cursor source session)⟩

/-- A row that was found under its key is found forever. -/
theorem Grows.stored {db db' : Database} (h : Grows db db') {sourceId session : String}
    {sequence : ℕ} {row : SnapshotRow} (hrow : db.stored sourceId session sequence = some row) :
    db'.stored sourceId session sequence = some row := by
  obtain ⟨rest, hrest⟩ := h.snapshots
  unfold Database.stored at hrow ⊢
  rw [← hrest, Table.lookup_append, hrow, Option.some_or]

theorem consistent_empty : Consistent Database.empty where
  rows := ⟨by simp [Database.empty], by simp [Database.empty], by simp [Database.empty],
    by simp [Database.empty]⟩
  cover _ _ := ExactCover.empty

theorem mem_rowsOf {row : SnapshotRow} {sourceId session : String} {db : Database} :
    row ∈ db.rowsOf sourceId session ↔
      row ∈ db.snapshots ∧ row.sourceId = sourceId ∧ row.sourceSessionId = session := by
  simp [rowsOf]

theorem mem_storedSequences {sourceId session : String} {sequence : ℕ} {db : Database} :
    sequence ∈ db.storedSequences sourceId session ↔
      ∃ row ∈ db.snapshots, row.sourceId = sourceId ∧ row.sourceSessionId = session ∧
        row.sequence = sequence := by
  simp [storedSequences, mem_rowsOf, and_assoc]

theorem mem_lostIntervals {sourceId session : String} {gap : ℕ × ℕ} {db : Database} :
    gap ∈ db.lostIntervals sourceId session ↔
      ∃ row ∈ db.gaps, row.sourceId = sourceId ∧ row.sourceSessionId = session ∧
        (row.expectedSequence, row.oldestSequence) = gap := by
  simp [lostIntervals, gapsOf, and_assoc]

theorem stored_some {sourceId session : String} {sequence : ℕ} {db : Database} {row : SnapshotRow}
    (h : db.stored sourceId session sequence = some row) :
    row ∈ db.snapshots ∧ row.sourceId = sourceId ∧ row.sourceSessionId = session ∧
      row.sequence = sequence := by
  obtain ⟨hmem, hkey⟩ := Table.lookup_some h
  simp only [snapshotKey, Prod.mk.injEq] at hkey
  exact ⟨hmem, hkey⟩

namespace Consistent

variable {db : Database}

theorem cursorBounds (h : Consistent db) (source : Source) (session : String) :
    CursorBounds source session db := by
  intro sequence hge
  cases hstored : db.stored source.id session sequence with
  | none => rfl
  | some row =>
    have hmem := mem_storedSequences.mpr ⟨row, stored_some hstored⟩
    have hlt := (h.cover source.id session).lt_of_stored hmem
    omega

/-- A session's rows carry distinct sequences, so a row is found under its own key. -/
theorem stored_of_mem (h : Consistent db) {row : SnapshotRow} (hrow : row ∈ db.snapshots) :
    db.stored row.sourceId row.sourceSessionId row.sequence = some row := by
  cases hstored : db.stored row.sourceId row.sourceSessionId row.sequence with
  | none => exact absurd rfl (Table.lookup_eq_none.mp hstored row hrow)
  | some other =>
    obtain ⟨hmem, hsource, hsession, hsequence⟩ := stored_some hstored
    have hnodup := (h.cover row.sourceId row.sourceSessionId).stored_nodup
    have heq := List.inj_on_of_nodup_map hnodup (mem_rowsOf.mpr ⟨hmem, hsource, hsession⟩)
      (mem_rowsOf.mpr ⟨hrow, rfl, rfl⟩) hsequence
    rw [heq]

end Consistent

/-! ## Storing the new part -/

theorem StoredOne.rowsValid {ingested : ℤ} {snapshot : StateSnapshot} {db db' : Database}
    (h : StoredOne serde source session ingested snapshot db db') (hrows : RowsValid db)
    (hvalid : snapshot.Valid) (hsession : snapshot.sourceSessionId = session) : RowsValid db' := by
  refine ⟨?_, ?_, ?_, ?_⟩
  · rw [h.snapshots, List.map_append, List.pairwise_append]
    refine ⟨hrows.ids_ascending, by simp, ?_⟩
    intro old hold new hnew
    obtain ⟨row, hrow, rfl⟩ := List.mem_map.mp hold
    rw [List.map_singleton, List.mem_singleton] at hnew
    have hle := hrows.ids_le row hrow
    rw [hnew]
    exact Nat.lt_succ_of_le hle
  all_goals
    intro row hrow
    rw [h.snapshots] at hrow
    cases List.mem_append.mp hrow with
    | inl hold =>
      first
        | exact hrows.ids_pos row hold
        | exact h.snapshotSeq ▸ Nat.le_succ_of_le (hrows.ids_le row hold)
        | exact hrows.written row hold
    | inr hnew =>
      rw [List.mem_singleton.mp hnew]
      first
        | exact Nat.succ_pos _
        | exact h.snapshotSeq.symm.le
        | exact ⟨snapshot, hvalid, rfl, rfl, hsession.symm, rfl⟩

namespace StoredAll

variable {new : List StateSnapshot} {db db' : Database}

theorem cursors (h : StoredAll serde source session new db db') : db'.cursors = db.cursors := by
  induction h with
  | nil db => rfl
  | cons ingested first others ih => exact ih.trans first.cursors

theorem gaps (h : StoredAll serde source session new db db') : db'.gaps = db.gaps := by
  induction h with
  | nil db => rfl
  | cons ingested first others ih => exact ih.trans first.gaps

theorem isPrefix (h : StoredAll serde source session new db db') :
    db.snapshots <+: db'.snapshots := by
  induction h with
  | nil db => exact List.prefix_rfl
  | cons ingested first others ih =>
    refine List.IsPrefix.trans ?_ ih
    rw [first.snapshots]
    exact List.prefix_append _ _

theorem rowsValid (h : StoredAll serde source session new db db') (hrows : RowsValid db)
    (hnew : ∀ snapshot ∈ new, snapshot.Valid ∧ snapshot.sourceSessionId = session) :
    RowsValid db' := by
  induction h with
  | nil db => exact hrows
  | cons ingested first others ih =>
    simp only [List.mem_cons, forall_eq_or_imp] at hnew
    exact ih (first.rowsValid hrows hnew.1.1 hnew.1.2) hnew.2

/-- The session's stored sequences grow by those of the new part. -/
theorem storedSequences (h : StoredAll serde source session new db db') :
    db'.storedSequences source.id session =
      db.storedSequences source.id session ++ new.map StateSnapshot.sequence := by
  induction h with
  | nil db => simp
  | cons ingested first others ih =>
    rw [ih, List.map_cons, Database.storedSequences, Database.rowsOf, first.snapshots,
      List.filter_append, List.map_append]
    simp [rowOf, Database.storedSequences, Database.rowsOf]

/-- Other sessions keep their rows. -/
theorem rowsOf_of_ne (h : StoredAll serde source session new db db') {sourceId session' : String}
    (hne : (sourceId, session') ≠ (source.id, session)) :
    db'.rowsOf sourceId session' = db.rowsOf sourceId session' := by
  induction h with
  | nil db => rfl
  | @cons snapshot rest before middle after ingested first others ih =>
    rw [ih, Database.rowsOf, first.snapshots, List.filter_append]
    have hskip : [rowOf source session ingested snapshot (before.snapshotSeq + 1)].filter
        (fun row ↦ row.sourceId = sourceId ∧ row.sourceSessionId = session') = [] := by
      refine List.filter_cons_of_neg ?_
      simp only [decide_eq_true_eq, not_and]
      exact fun hsource hsession ↦ hne (Prod.ext hsource.symm hsession.symm)
    rw [hskip, List.append_nil]
    rfl

end StoredAll

/-! ## Moving the cursor -/

theorem cursor_upsertCursor_self (row : CursorRow) (db : Database) :
    (db.upsertCursor row).cursor row.sourceId row.sourceSessionId =
      max (db.cursor row.sourceId row.sourceSessionId) row.nextSequence := by
  have hlookup := Table.lookup_upsert_self cursorKey
    (fun old ↦
      { old with
        nextSequence := max old.nextSequence row.nextSequence
        updatedAtNs := row.updatedAtNs }) row db.cursors fun _ h ↦ h
  have hkey : cursorKey row = (row.sourceId, row.sourceSessionId) := rfl
  rw [hkey] at hlookup
  unfold cursor upsertCursor
  rw [hlookup]
  cases Table.lookup cursorKey (row.sourceId, row.sourceSessionId) db.cursors <;> simp

theorem cursor_upsertCursor_of_ne (row : CursorRow) (db : Database) {sourceId session : String}
    (hne : (sourceId, session) ≠ (row.sourceId, row.sourceSessionId)) :
    (db.upsertCursor row).cursor sourceId session = db.cursor sourceId session := by
  have hlookup := Table.lookup_upsert_of_ne cursorKey
    (fun old ↦
      { old with
        nextSequence := max old.nextSequence row.nextSequence
        updatedAtNs := row.updatedAtNs }) row db.cursors (fun _ h ↦ h) hne
  unfold cursor upsertCursor
  rw [hlookup]

section Advanced

variable {committed : ℕ} {page : SnapshotHistoryResponse} {db db' : Database}

theorem Advanced.cursor_self (h : Advanced source committed page db db') :
    db'.cursor source.id page.sourceSessionId =
      max (db.cursor source.id page.sourceSessionId) (max committed page.nextSequence) := by
  obtain ⟨time, hcursors⟩ := h.cursors
  rw [← cursor_upsertCursor_self ⟨source.id, page.sourceSessionId,
    max committed page.nextSequence, time⟩]
  unfold cursor
  rw [hcursors]

theorem Advanced.cursor_of_ne (h : Advanced source committed page db db')
    {sourceId session : String} (hne : (sourceId, session) ≠ (source.id, page.sourceSessionId)) :
    db'.cursor sourceId session = db.cursor sourceId session := by
  obtain ⟨time, hcursors⟩ := h.cursors
  have hkeep := cursor_upsertCursor_of_ne ⟨source.id, page.sourceSessionId,
    max committed page.nextSequence, time⟩ db hne
  unfold cursor at hkeep ⊢
  rw [hcursors, hkeep]

theorem Advanced.lostIntervals_self (h : Advanced source committed page db db') :
    db'.lostIntervals source.id page.sourceSessionId =
      db.lostIntervals source.id page.sourceSessionId ++
        if committed < page.oldestSequence then [(committed, page.oldestSequence)] else [] := by
  obtain ⟨time, hgaps⟩ := h.gaps
  unfold lostIntervals gapsOf
  rw [hgaps, List.filter_append, List.map_append]
  split <;> simp

theorem Advanced.gapsOf_of_ne (h : Advanced source committed page db db')
    {sourceId session : String} (hne : (sourceId, session) ≠ (source.id, page.sourceSessionId)) :
    db'.gapsOf sourceId session = db.gapsOf sourceId session := by
  obtain ⟨time, hgaps⟩ := h.gaps
  unfold gapsOf
  rw [hgaps, List.filter_append]
  have hskip : (if committed < page.oldestSequence then
      [(⟨source.id, page.sourceSessionId, committed, page.oldestSequence, time⟩ : GapRow)]
      else []).filter (fun row ↦ row.sourceId = sourceId ∧ row.sourceSessionId = session) = [] := by
    split
    · refine List.filter_cons_of_neg ?_
      simp only [decide_eq_true_eq, not_and]
      exact fun hsource hsession ↦ hne (Prod.ext hsource.symm hsession.symm)
    · rfl
  rw [hskip, List.append_nil]

end Advanced

/-! ## The step lemma -/

theorem newPart_subset {committed : ℕ} {snapshots : List StateSnapshot} {snapshot : StateSnapshot}
    (h : snapshot ∈ newPart committed snapshots) : snapshot ∈ snapshots :=
  (List.mem_filter.mp h).1

/-- Other sessions keep their view. -/
theorem Ingested.frame {page : SnapshotHistoryResponse} {n : ℕ} {db db' : Database}
    (h : Ingested serde source page db n db') {sourceId session : String}
    (hne : (sourceId, session) ≠ (source.id, page.sourceSessionId)) :
    db'.cursor sourceId session = db.cursor sourceId session ∧
      db'.rowsOf sourceId session = db.rowsOf sourceId session ∧
      db'.gapsOf sourceId session = db.gapsOf sourceId session := by
  cases h with
  | replayed held behind => exact ⟨rfl, rfl, rfl⟩
  | @extended new middle db' part nonempty held ahead sequences stored advanced =>
    refine ⟨?_, ?_, ?_⟩
    · rw [advanced.cursor_of_ne hne]
      unfold cursor
      rw [stored.cursors]
    · rw [← stored.rowsOf_of_ne hne]
      unfold rowsOf
      rw [advanced.snapshots]
    · rw [advanced.gapsOf_of_ne hne]
      unfold gapsOf
      rw [stored.gaps]

/-- The session's own view after a page that stored something. -/
theorem extended_views {page : SnapshotHistoryResponse} {new : List StateSnapshot}
    {db middle db' : Database} (stored : StoredAll serde source page.sourceSessionId new db middle)
    (advanced : Advanced source (db.cursor source.id page.sourceSessionId) page middle db') :
    db'.cursor source.id page.sourceSessionId =
        max (db.cursor source.id page.sourceSessionId) page.nextSequence ∧
      db'.storedSequences source.id page.sourceSessionId =
        db.storedSequences source.id page.sourceSessionId ++ new.map StateSnapshot.sequence ∧
      db'.lostIntervals source.id page.sourceSessionId =
        db.lostIntervals source.id page.sourceSessionId ++
          if db.cursor source.id page.sourceSessionId < page.oldestSequence then
            [(db.cursor source.id page.sourceSessionId, page.oldestSequence)] else [] := by
  refine ⟨?_, ?_, ?_⟩
  · have hcursor : middle.cursor source.id page.sourceSessionId =
        db.cursor source.id page.sourceSessionId := by
      unfold cursor
      rw [stored.cursors]
    rw [advanced.cursor_self, hcursor]
    omega
  · rw [← stored.storedSequences]
    unfold storedSequences rowsOf
    rw [advanced.snapshots]
  · rw [advanced.lostIntervals_self]
    unfold lostIntervals gapsOf
    rw [stored.gaps]

theorem Ingested.consistent {page : SnapshotHistoryResponse} {n : ℕ} {db db' : Database}
    (h : Ingested serde source page db n db') (hpage : page.WellFormed) (hdb : Consistent db) :
    Consistent db' ∧ Grows db db' := by
  have hframe := fun {sourceId session : String}
    (hne : (sourceId, session) ≠ (source.id, page.sourceSessionId)) ↦ h.frame hne
  cases h with
  | replayed held behind => exact ⟨hdb, Grows.refl db⟩
  | @extended new middle db' part nonempty held ahead sequences stored advanced =>
    obtain ⟨hcursor, hsequences, hlost⟩ := extended_views stored advanced
    have hnew : ∀ snapshot ∈ new, snapshot.Valid ∧
        snapshot.sourceSessionId = page.sourceSessionId := by
      intro snapshot hmem
      rw [part] at hmem
      exact ⟨hpage.valid _ (newPart_subset hmem), hpage.session _ (newPart_subset hmem)⟩
    have hmiddle := stored.rowsValid hdb.rows hnew
    refine ⟨⟨⟨?_, ?_, ?_, ?_⟩, ?_⟩, ⟨?_, ?_⟩⟩
    · rw [advanced.snapshots]
      exact hmiddle.ids_ascending
    · rw [advanced.snapshots]
      exact hmiddle.ids_pos
    · rw [advanced.snapshots, advanced.snapshotSeq]
      exact hmiddle.ids_le
    · rw [advanced.snapshots]
      exact hmiddle.written
    · intro sourceId session
      by_cases hkey : (sourceId, session) = (source.id, page.sourceSessionId)
      · obtain ⟨rfl, rfl⟩ := Prod.mk.inj hkey
        have hmax : max (db.cursor source.id page.sourceSessionId) page.nextSequence =
            page.nextSequence := max_eq_right (by omega)
        have hold := hdb.cover source.id page.sourceSessionId
        have hextend := hold.extend (le_max_left _ page.oldestSequence) ahead.le
        rw [hcursor, hsequences, hlost, hmax, sequences]
        by_cases hskip : db.cursor source.id page.sourceSessionId < page.oldestSequence
        · rw [if_pos hskip]
          rw [max_eq_right hskip.le, if_pos hskip] at hextend
          rw [max_eq_right hskip.le]
          exact hextend
        · rw [if_neg hskip]
          rw [max_eq_left (Nat.not_lt.mp hskip), if_neg (lt_irrefl _)] at hextend
          rw [max_eq_left (Nat.not_lt.mp hskip)]
          exact hextend
      · obtain ⟨hc, hr, hg⟩ := hframe hkey
        have hold := hdb.cover sourceId session
        unfold storedSequences lostIntervals at hold ⊢
        rw [hc, hr, hg]
        exact hold
    · rw [advanced.snapshots]
      exact stored.isPrefix
    · intro sourceId session
      by_cases hkey : (sourceId, session) = (source.id, page.sourceSessionId)
      · obtain ⟨rfl, rfl⟩ := Prod.mk.inj hkey
        rw [hcursor]
        exact le_max_left _ _
      · exact (hframe hkey).1.ge

/-- Ingesting a page keeps consistency, whether it is accepted or rejected and rolled back. -/
theorem ingestPage_consistent {now : ℕ → ℤ} {descriptor : SnapshotDescriptor}
    {page : SnapshotHistoryResponse} {n : ℕ} {db db' : Database} (hdb : Consistent db)
    (h : (ingestPage serde now source descriptor page).Returns db n db') :
    Consistent db' ∧ Grows db db' := by
  obtain ⟨hcheck, hingested⟩ := ingestPage_returns (hdb.cursorBounds source page.sourceSessionId) h
  exact hingested.consistent (checkPage_ok.mp hcheck).2.1 hdb

end Rvx.Engine
