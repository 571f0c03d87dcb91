import Rvx.Engine.StoreRuns

/-!
# One session's view of the store

Of the raw tables a session sees its own rows, gaps and cursor.  Steps that do not deliver a page
of the session leave this view alone, and a page of the session adds rows of its own snapshots and
at most one gap.
-/

namespace Rvx.Engine

open Core Script Database

variable {serde : Serde} {source : Source}

/-- Two databases look the same to a session. -/
structure SameView (sourceId session : String) (db db' : Database) : Prop where
  cursor : db'.cursor sourceId session = db.cursor sourceId session
  rows : db'.rowsOf sourceId session = db.rowsOf sourceId session
  gaps : db'.gapsOf sourceId session = db.gapsOf sourceId session

namespace SameView

variable {sourceId session : String} {db db' db'' : Database}

theorem refl (sourceId session : String) (db : Database) : SameView sourceId session db db :=
  ⟨rfl, rfl, rfl⟩

theorem trans (h : SameView sourceId session db db') (h' : SameView sourceId session db' db'') :
    SameView sourceId session db db'' :=
  ⟨h'.cursor.trans h.cursor, h'.rows.trans h.rows, h'.gaps.trans h.gaps⟩

theorem lostIntervals (h : SameView sourceId session db db') :
    db'.lostIntervals sourceId session = db.lostIntervals sourceId session := by
  unfold Database.lostIntervals
  rw [h.gaps]

end SameView

/-! ## Steps that do not concern the session -/

theorem SameRaw.sameView {db db' : Database} (h : SameRaw db db') (sourceId session : String) :
    SameView sourceId session db db' := by
  refine ⟨?_, ?_, ?_⟩
  · unfold cursor
    rw [h.cursors]
  · unfold rowsOf
    rw [h.snapshots]
  · unfold gapsOf
    rw [h.gaps]

/-- Pages of other sessions. -/
theorem ingestSequentially_sameView {sourceId session : String} (pages : List Delivery)
    {db : Database} (hdb : Consistent db)
    (hforeign : ∀ delivery ∈ pages,
      (delivery.source.id, delivery.page.sourceSessionId) ≠ (sourceId, session)) :
    SameView sourceId session db (ingestSequentially serde pages db).2 := by
  induction pages generalizing db with
  | nil => exact SameView.refl _ _ _
  | cons delivery rest ih =>
    simp only [List.mem_cons, forall_eq_or_imp] at hforeign
    have hmiddle := (atomically_consistent serde delivery hdb).1
    simp only [ingestSequentially]
    refine SameView.trans ?_ (ih hmiddle hforeign.2)
    rcases atomically_cases serde delivery hdb with ⟨reason, hrun⟩ | ⟨n, db', hrun, -, hingested⟩
    · rw [hrun]
      exact SameView.refl _ _ _
    · rw [hrun]
      obtain ⟨hcursor, hrows, hgaps⟩ := hingested.frame hforeign.1.symm
      exact ⟨hcursor, hrows, hgaps⟩

/-! ## A page of the session -/

theorem StoredAll.mem_rowsOf {session : String} {new : List StateSnapshot} {db db' : Database}
    (h : StoredAll serde source session new db db') {row : SnapshotRow}
    (hrow : row ∈ db'.rowsOf source.id session) :
    row ∈ db.rowsOf source.id session ∨
      ∃ snapshot ∈ new, ∃ ingested id, row = rowOf source session ingested snapshot id := by
  induction h with
  | nil db => exact Or.inl hrow
  | @cons snapshot rest before middle after ingested first others ih =>
    rcases ih hrow with hmiddle | ⟨later, hlater, hnew⟩
    · obtain ⟨hmem, hkey⟩ := Engine.mem_rowsOf.mp hmiddle
      rw [first.snapshots] at hmem
      cases List.mem_append.mp hmem with
      | inl hold => exact Or.inl (Engine.mem_rowsOf.mpr ⟨hold, hkey⟩)
      | inr hone => exact Or.inr ⟨snapshot, List.mem_cons_self, _, _, List.mem_singleton.mp hone⟩
    · exact Or.inr ⟨later, List.mem_cons_of_mem _ hlater, hnew⟩

/-- What an accepted page adds to the view of its own session. -/
structure ViewExtended (source : Source) (page : SnapshotHistoryResponse) (db db' : Database) :
    Prop where
  rows : ∀ row ∈ db'.rowsOf source.id page.sourceSessionId,
    row ∈ db.rowsOf source.id page.sourceSessionId ∨
      ∃ snapshot ∈ page.snapshots, ∃ ingested id,
        row = rowOf source page.sourceSessionId ingested snapshot id
  lost : ∃ gaps, db'.lostIntervals source.id page.sourceSessionId =
      db.lostIntervals source.id page.sourceSessionId ++ gaps ∧
    ∀ gap ∈ gaps, gap.2 = page.oldestSequence
  cursor : db'.cursor source.id page.sourceSessionId =
    max (db.cursor source.id page.sourceSessionId) page.nextSequence

theorem Ingested.viewExtended {page : SnapshotHistoryResponse} {n : ℕ} {db db' : Database}
    (h : Ingested serde source page db n db') : ViewExtended source page db db' := by
  cases h with
  | replayed held behind =>
    exact ⟨fun row hrow ↦ Or.inl hrow, ⟨[], by simp, by simp⟩, (max_eq_left behind).symm⟩
  | @extended new middle db' part nonempty held ahead sequences stored advanced =>
    obtain ⟨hcursor, -, hlost⟩ := extended_views stored advanced
    refine ⟨fun row hrow ↦ ?_, ⟨_, hlost, fun gap hgap ↦ ?_⟩, hcursor⟩
    · have hmiddle : row ∈ middle.rowsOf source.id page.sourceSessionId := by
        unfold rowsOf at hrow ⊢
        rwa [← advanced.snapshots]
      rcases stored.mem_rowsOf hmiddle with hold | ⟨snapshot, hmem, hnew⟩
      · exact Or.inl hold
      · rw [part] at hmem
        exact Or.inr ⟨snapshot, newPart_subset hmem, hnew⟩
    · split at hgap
      · rw [List.mem_singleton.mp hgap]
      · simp at hgap

end Rvx.Engine
