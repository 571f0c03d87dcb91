import Rvx.Engine.Heads
import Rvx.Engine.Progress

/-!
# Rows that can be listed

Pages return rows under the names of their run and source, and find the latest ones by their heads.
In every state a store reaches the names have passed the check of identifiers, and every head points
at a stored row of its own run and source.
-/

namespace Rvx.Engine

open Core Check Script Database

variable {serde : Serde}

theorem checkIds_singleton {id : String} {maximum : ℕ} :
    checkIds [id] (maximum + 1) = .ok () ↔ isBlank id = false ∧ id.utf8ByteSize ≤ 4096 := by
  simp [checkIds, reject_ok]

/-! ## Valid heads -/

section Heads

variable {rows rows' : List SnapshotRow} {heads : List HeadRow}

theorem HeadsValid.mono (h : HeadsValid rows heads) (hrows : rows ⊆ rows') :
    HeadsValid rows' heads := by
  refine ⟨h.1, fun head hhead ↦ ?_⟩
  obtain ⟨row, hrow, hsame⟩ := h.2 head hhead
  exact ⟨row, hrows hrow, hsame⟩

/-- A head that is moved to a row of its run and source stays valid. -/
theorem HeadsValid.upsert (h : HeadsValid rows heads) {head : HeadRow}
    (hhead : ∃ row ∈ rows,
      row.id = head.snapshotId ∧ row.runId = head.runId ∧ row.sourceId = head.sourceId) :
    HeadsValid rows (upsertHead head heads) := by
  refine ⟨Table.nodup_upsert (fun _ hkey ↦ hkey) h.1, fun other hother ↦ ?_⟩
  have hmoved : ∀ old ∈ heads, headKey old = headKey head →
      { old with snapshotId := head.snapshotId } = head := by
    intro old _ hkey
    obtain ⟨hrun, hsource⟩ := Prod.mk.inj hkey
    rw [hrun, hsource]
  rcases Table.mem_upsert hmoved hother with rfl | ⟨hold, -⟩
  · exact hhead
  · exact h.2 other hold

theorem HeadsValid.foldl_upsert {latest : List HeadRow} (h : HeadsValid rows heads)
    (hlatest : ∀ head ∈ latest, ∃ row ∈ rows,
      row.id = head.snapshotId ∧ row.runId = head.runId ∧ row.sourceId = head.sourceId) :
    HeadsValid rows (latest.foldl (fun heads head ↦ upsertHead head heads) heads) := by
  induction latest generalizing heads with
  | nil => exact h
  | cons head rest ih =>
    simp only [List.mem_cons, forall_eq_or_imp] at hlatest
    exact ih (h.upsert hlatest.1) hlatest.2

end Heads

/-! ## The invariant -/

/-- The rows are named and the heads are valid. -/
structure Listable (db : Database) : Prop where
  named : ∀ row ∈ db.snapshots, checkIds [row.runId] 1 = .ok () ∧ checkIds [row.sourceId] 1 = .ok ()
  heads : ∀ heads, db.heads = some heads → HeadsValid db.snapshots heads

theorem StoredOne.listable {source : Source} {session : String} {ingested : ℤ}
    {snapshot : StateSnapshot} {db db' : Database}
    (h : StoredOne serde source session ingested snapshot db db')
    (hsource : checkIds [source.id] 1 = .ok ()) (hrun : checkIds [source.runId] 1 = .ok ())
    (hdb : Listable db) : Listable db' := by
  have hgrows : db.snapshots ⊆ db'.snapshots := by
    rw [h.snapshots]
    exact List.subset_append_left _ _
  constructor
  · intro row hrow
    rw [h.snapshots] at hrow
    cases List.mem_append.mp hrow with
    | inl hold => exact hdb.named row hold
    | inr hnew =>
      rw [List.mem_singleton.mp hnew]
      exact ⟨hrun, hsource⟩
  · intro heads hheads
    rcases h.heads with ⟨-, hsame⟩ | ⟨-, old, hold, hnew⟩
    · exact (hdb.heads heads (hsame ▸ hheads)).mono hgrows
    · rw [hnew, Option.some.injEq] at hheads
      rw [← hheads]
      apply ((hdb.heads old hold).mono hgrows).upsert
      refine ⟨rowOf source session ingested snapshot (db.snapshotSeq + 1), ?_, rfl, rfl, rfl⟩
      simp [h.snapshots]

theorem ingestSequentially_listable (pages : List Delivery) {db : Database} (hdb : Consistent db)
    (h : Listable db) : Listable (ingestSequentially serde pages db).2 := by
  refine ingestSequentially_preserves Listable ?_ pages hdb h
  intro source descriptor page n db db' hconsistent hold hcheck hingested
  obtain ⟨-, hpage, -, -, hsource, hrun⟩ := checkPage_ok.mp hcheck
  refine hingested.preserves Listable hpage ?_ ?_ hold
  · exact fun _ hlistable hone ↦ hone.listable hsource hrun hlistable
  · intro committed db db' hlistable hadvanced
    exact ⟨hadvanced.snapshots ▸ hlistable.named,
      hadvanced.snapshots ▸ hadvanced.heads ▸ hlistable.heads⟩

/-- The two statements of the repair. -/
theorem Listable.repair {db db' : Database} (h : Listable db)
    (hsnapshots : db'.snapshots = db.snapshots)
    (hheads : db'.heads = db.heads ∨ db'.heads = (deleteHeads db).heads ∨
      db'.heads = (insertHeads db).heads) : Listable db' := by
  refine ⟨hsnapshots ▸ h.named, fun heads hsome ↦ ?_⟩
  rw [hsnapshots]
  rcases hheads with heq | heq | heq
  · exact h.heads heads (heq ▸ hsome)
  · rw [heq, deleteHeads, Option.map_eq_some_iff] at hsome
    obtain ⟨old, hold, rfl⟩ := hsome
    have hvalid := h.heads old hold
    exact ⟨hvalid.1.sublist (List.filter_sublist.map headKey),
      fun head hhead ↦ hvalid.2 head (List.mem_of_mem_filter hhead)⟩
  · rw [heq, insertHeads, Option.map_eq_some_iff] at hsome
    obtain ⟨old, hold, rfl⟩ := hsome
    apply (h.heads old hold).foldl_upsert
    intro head hhead
    obtain ⟨row, hrow, hsame⟩ := (headsValid_maxHeads _).2 head hhead
    exact ⟨row, List.mem_of_mem_filter hrow, hsame⟩

theorem Store.step_listable {store store' : Store} {action : Action}
    (hconsistent : Consistent store.db) (h : Listable store.db)
    (hstep : store.step serde action = some store') : Listable store'.db := by
  cases action with
  | beginOpen =>
    simp only [Store.step, Option.ite_none_right_eq_some, Option.some.injEq] at hstep
    obtain ⟨-, rfl⟩ := hstep
    refine ⟨h.named, fun heads hheads ↦ ?_⟩
    simp only [createTables, Option.some.injEq] at hheads
    cases hold : store.db.heads with
    | none =>
      rw [← hheads, hold]
      exact headsValid_maxHeads _
    | some old =>
      rw [← hheads, hold]
      exact h.heads old hold
  | continueOpen =>
    exact h.repair (continueOpen_sameRaw hstep).snapshots (continueOpen_heads hstep)
  | stop =>
    obtain rfl := Option.some.inj hstep
    exact h
  | ingestBatch pages =>
    simp only [Store.step, Option.ite_none_right_eq_some, Option.some.injEq, ingestBatch_eq] at hstep
    obtain ⟨-, rfl⟩ := hstep
    exact ingestSequentially_listable pages hconsistent h
  | useOlder older =>
    simp only [Store.step, Option.ite_none_right_eq_some, Option.some.injEq] at hstep
    obtain ⟨⟨-, -, -, hpossible⟩, rfl⟩ := hstep
    refine ⟨h.named, fun heads hheads ↦ ?_⟩
    rcases hpossible with hsame | hnone | ⟨-, hvalid⟩
    · exact h.heads heads (hsame ▸ hheads)
    · simp [hnone] at hheads
    · have hsome : older.heads = some heads := hheads
      rw [hsome, Option.getD_some] at hvalid
      exact hvalid

theorem Store.Reachable.listable {store : Store} (hstore : store.Reachable serde) :
    Listable store.db := by
  obtain ⟨actions, hrun⟩ := hstore
  have hinit : Listable Store.init.db :=
    ⟨by simp [Store.init, Database.empty], by simp [Store.init, Database.empty]⟩
  refine (Store.run_induction (fun store ↦ Consistent store.db ∧ Listable store.db) ?_
    ⟨consistent_empty, hinit⟩ hrun).2
  rintro store action store' ⟨hconsistent, hlistable⟩ hstep
  exact ⟨(Store.step_consistent hconsistent hstep).1,
    Store.step_listable hconsistent hlistable hstep⟩

end Rvx.Engine
