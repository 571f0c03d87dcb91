import Rvx.Engine.Rebuild

/-!
# Heads

The head of a run and source should be its newest observation.  Ingestion keeps the heads exact,
and so does an open that repairs them.  An open repairs them only if it saw the heads table missing
or rebuilt the chart index, and it learns both before other transactions commit: when it is cut
short in between, the next open finds the table present and the index current and skips the repair.
-/

namespace Rvx.Engine

open Core Script Database

variable {serde : Serde}

/-! ## The newest observation -/

/-- The largest ID among the stored observations of a run and source. -/
def latestObservation (serde : Serde) (run source : String) (rows : List SnapshotRow) : Option ℕ :=
  ((rows.filter fun row ↦ row.runId = run ∧ row.sourceId = source ∧
    serde.isObservation row.snapshotJson).map SnapshotRow.id).max?

/-- Every head is the newest observation of its pair, and a pair without one has no head. -/
def HeadsExact (serde : Serde) (db : Database) : Prop :=
  ∃ heads, db.heads = some heads ∧ (heads.map headKey).Nodup ∧ ∀ run source,
    (Table.lookup headKey (run, source) heads).map HeadRow.snapshotId =
      latestObservation serde run source db.snapshots

theorem max?_concat {α : Type} [LinearOrder α] (ids : List α) (id : α) :
    (ids ++ [id]).max? = some (ids.max?.elim id fun old ↦ max old id) := by
  cases ids with
  | nil => rfl
  | cons first rest =>
    rw [List.cons_append, List.max?_cons', List.max?_cons', List.foldl_append]
    rfl

theorem latestObservation_concat (serde : Serde) (run source : String) (rows : List SnapshotRow)
    (row : SnapshotRow) (hlast : ∀ old ∈ rows, old.id < row.id) :
    latestObservation serde run source (rows ++ [row]) =
      if row.runId = run ∧ row.sourceId = source ∧ serde.isObservation row.snapshotJson then
        some row.id
      else latestObservation serde run source rows := by
  unfold latestObservation
  rw [List.filter_append, List.map_append]
  split
  · rename_i hmatch
    have hnew : [row].filter (fun row ↦ row.runId = run ∧ row.sourceId = source ∧
        serde.isObservation row.snapshotJson) = [row] := by simp [hmatch]
    rw [hnew, List.map_singleton, max?_concat]
    cases hmax : ((rows.filter fun row ↦ row.runId = run ∧ row.sourceId = source ∧
        serde.isObservation row.snapshotJson).map SnapshotRow.id).max? with
    | none => rfl
    | some old =>
      obtain ⟨other, hother, rfl⟩ := List.mem_map.mp (List.max?_mem hmax)
      have hlt := hlast other (List.mem_filter.mp hother).1
      rw [Option.elim_some, max_eq_right hlt.le]
  · rename_i hmatch
    have hnew : [row].filter (fun row ↦ row.runId = run ∧ row.sourceId = source ∧
        serde.isObservation row.snapshotJson) = [] := List.filter_cons_of_neg (by simpa using hmatch)
    rw [hnew, List.map_nil, List.append_nil]

/-! ## Heads as a table -/

/-- Seeding picks the largest ID of every run and source. -/
theorem lookup_maxHeads (rows : List SnapshotRow) (run source : String) :
    (Table.lookup headKey (run, source) (maxHeads rows)).map HeadRow.snapshotId =
      ((rows.filter fun row ↦ row.runId = run ∧ row.sourceId = source).map SnapshotRow.id).max? := by
  induction rows using List.reverseRecOn with
  | nil => rfl
  | append_singleton rows row ih =>
    have hfold : maxHeads (rows ++ [row]) = Table.upsert headKey
        (fun old ↦ { old with snapshotId := max old.snapshotId row.id })
        ⟨row.runId, row.sourceId, row.id⟩ (maxHeads rows) := by
      unfold maxHeads
      rw [List.foldl_append, List.foldl_cons, List.foldl_nil]
    rw [hfold, List.filter_append, List.map_append]
    by_cases hpair : row.runId = run ∧ row.sourceId = source
    · obtain ⟨rfl, rfl⟩ := hpair
      have hself := Table.lookup_upsert_self headKey
        (fun old ↦ { old with snapshotId := max old.snapshotId row.id })
        ⟨row.runId, row.sourceId, row.id⟩ (maxHeads rows) fun _ h ↦ h
      have hkey : headKey ⟨row.runId, row.sourceId, row.id⟩ = (row.runId, row.sourceId) := rfl
      have hnew : [row].filter (fun other ↦ other.runId = row.runId ∧
          other.sourceId = row.sourceId) = [row] := by simp
      rw [hkey] at hself
      rw [hself, hnew, List.map_singleton, max?_concat, ← ih]
      cases Table.lookup headKey (row.runId, row.sourceId) (maxHeads rows) <;> rfl
    · have hnew : [row].filter (fun row ↦ row.runId = run ∧ row.sourceId = source) = [] :=
        List.filter_cons_of_neg (by simpa using hpair)
      have hne : (run, source) ≠ headKey ⟨row.runId, row.sourceId, row.id⟩ := fun heq ↦
        hpair ⟨(Prod.mk.inj heq).1.symm, (Prod.mk.inj heq).2.symm⟩
      have hkeep := Table.lookup_upsert_of_ne headKey
        (fun old ↦ { old with snapshotId := max old.snapshotId row.id })
        ⟨row.runId, row.sourceId, row.id⟩ (maxHeads rows) (fun _ h ↦ h) hne
      rw [hkeep, ih, hnew, List.map_nil, List.append_nil]

theorem nodup_maxHeads (rows : List SnapshotRow) : ((maxHeads rows).map headKey).Nodup := by
  induction rows using List.reverseRecOn with
  | nil => exact List.nodup_nil
  | append_singleton rows row ih =>
    unfold maxHeads at ih ⊢
    rw [List.foldl_append]
    exact Table.nodup_upsert (fun _ h ↦ h) ih

theorem nodup_foldl_upsertHead (latest : List HeadRow) {heads : List HeadRow}
    (h : (heads.map headKey).Nodup) :
    ((latest.foldl (fun heads head ↦ upsertHead head heads) heads).map headKey).Nodup := by
  induction latest generalizing heads with
  | nil => exact h
  | cons head rest ih => exact ih (Table.nodup_upsert (fun _ hold ↦ hold) h)

theorem lookup_upsertHead_self (head : HeadRow) (heads : List HeadRow) :
    (Table.lookup headKey (head.runId, head.sourceId) (upsertHead head heads)).map
      HeadRow.snapshotId = some head.snapshotId := by
  have hself := Table.lookup_upsert_self headKey
    (fun old ↦ { old with snapshotId := head.snapshotId }) head heads fun _ h ↦ h
  rw [upsertHead, show (head.runId, head.sourceId) = headKey head from rfl, hself]
  cases Table.lookup headKey (headKey head) heads <;> rfl

theorem lookup_upsertHead_of_ne (head : HeadRow) (heads : List HeadRow) {run source : String}
    (hne : ¬ (head.runId = run ∧ head.sourceId = source)) :
    Table.lookup headKey (run, source) (upsertHead head heads) =
      Table.lookup headKey (run, source) heads :=
  Table.lookup_upsert_of_ne headKey (fun old ↦ { old with snapshotId := head.snapshotId }) head
    heads (fun _ h ↦ h) fun heq ↦ hne ⟨(Prod.mk.inj heq).1.symm, (Prod.mk.inj heq).2.symm⟩

/-- Validity, said of lookups. -/
theorem headsValid_of_lookup {rows : List SnapshotRow} {heads : List HeadRow}
    (hkeys : (heads.map headKey).Nodup)
    (h : ∀ run source id, (Table.lookup headKey (run, source) heads).map HeadRow.snapshotId =
      some id → ∃ row ∈ rows, row.id = id ∧ row.runId = run ∧ row.sourceId = source) :
    HeadsValid rows heads := by
  refine ⟨hkeys, fun head hmem ↦ h head.runId head.sourceId head.snapshotId ?_⟩
  have hlookup := Table.lookup_eq_some_of_mem hkeys hmem
  rw [show headKey head = (head.runId, head.sourceId) from rfl] at hlookup
  rw [hlookup, Option.map_some]

theorem headsValid_maxHeads (rows : List SnapshotRow) : HeadsValid rows (maxHeads rows) := by
  refine headsValid_of_lookup (nodup_maxHeads rows) fun run source id hlookup ↦ ?_
  rw [lookup_maxHeads] at hlookup
  obtain ⟨row, hrow, rfl⟩ := List.mem_map.mp (List.max?_mem hlookup)
  simp only [List.mem_filter, decide_eq_true_eq] at hrow
  exact ⟨row, hrow.1, rfl, hrow.2.1, hrow.2.2⟩

/-- Exact heads are valid. -/
theorem HeadsExact.valid {db : Database} (h : HeadsExact serde db) :
    ∃ heads, db.heads = some heads ∧ HeadsValid db.snapshots heads := by
  obtain ⟨heads, hsome, hkeys, hexact⟩ := h
  refine ⟨heads, hsome, headsValid_of_lookup hkeys fun run source id hlookup ↦ ?_⟩
  rw [hexact] at hlookup
  obtain ⟨row, hrow, rfl⟩ := List.mem_map.mp (List.max?_mem hlookup)
  simp only [List.mem_filter, decide_eq_true_eq] at hrow
  exact ⟨row, hrow.1, rfl, hrow.2.1, hrow.2.2.1⟩

/-! ## Ingestion keeps the heads exact -/

theorem isObservation_encode (hserde : serde.RoundTrip) {snapshot : StateSnapshot}
    (hvalid : snapshot.Valid) : serde.isObservation snapshot.encode = !snapshot.isEvent := by
  simp [Serde.isObservation, hserde snapshot hvalid]

theorem StoredOne.heads_upsert (hserde : serde.RoundTrip) {source : Source} {session : String}
    {ingested : ℤ} {snapshot : StateSnapshot} {db db' : Database}
    (h : StoredOne serde source session ingested snapshot db db') (hvalid : snapshot.Valid)
    (hrows : ∀ row ∈ db.snapshots, row.id ≤ db.snapshotSeq) (hheads : HeadsExact serde db) :
    HeadsExact serde db' := by
  obtain ⟨heads, hsome, hkeys, hexact⟩ := hheads
  have hlatest (run source' : String) := latestObservation_concat serde run source' db.snapshots
    (rowOf source session ingested snapshot (db.snapshotSeq + 1))
    fun old hold ↦ Nat.lt_succ_of_le (hrows old hold)
  have hkind : serde.isObservation
      (rowOf source session ingested snapshot (db.snapshotSeq + 1)).snapshotJson =
        !snapshot.isEvent := isObservation_encode hserde hvalid
  have hevent := hvalid.isTrackerEvent
  unfold HeadsExact
  simp only [h.snapshots, hlatest, hkind]
  rcases h.heads with ⟨htrue, hsame⟩ | ⟨hfalse, old, hold, hnew⟩
  · rw [hevent, Except.ok.injEq] at htrue
    refine ⟨heads, hsame.trans hsome, hkeys, fun run source' ↦ ?_⟩
    rw [hexact, htrue, if_neg (by simp)]
  · rw [hevent, Except.ok.injEq] at hfalse
    obtain rfl := Option.some.inj (hsome.symm.trans hold)
    refine ⟨_, hnew, Table.nodup_upsert (fun _ hkey ↦ hkey) hkeys, fun run source' ↦ ?_⟩
    rw [hfalse]
    by_cases hpair : source.runId = run ∧ source.id = source'
    · obtain ⟨rfl, rfl⟩ := hpair
      rw [lookup_upsertHead_self ⟨source.runId, source.id, db.snapshotSeq + 1⟩ heads,
        if_pos ⟨rfl, rfl, by simp⟩]
      rfl
    · rw [lookup_upsertHead_of_ne _ _ hpair, hexact, if_neg fun hmatch ↦ hpair
        ⟨hmatch.1, hmatch.2.1⟩]

theorem ingestSequentially_headsExact (hserde : serde.RoundTrip) (pages : List Delivery)
    {db : Database} (hdb : Consistent db) (hheads : HeadsExact serde db) :
    HeadsExact serde (ingestSequentially serde pages db).2 := by
  refine ingestSequentially_preserves (HeadsExact serde) ?_ pages hdb hheads
  intro source descriptor page n db db' hdb hold hcheck hingested
  -- the IDs stay below the counter, so every new row is the newest
  have hpreserved := hingested.preserves (fun db ↦ HeadsExact serde db ∧
    ∀ row ∈ db.snapshots, row.id ≤ db.snapshotSeq) (checkPage_ok.mp hcheck).2.1 ?_ ?_
    ⟨hold, hdb.rows.ids_le⟩
  · exact hpreserved.1
  · intro ingested snapshot db db' hvalid hold hone
    refine ⟨hone.heads_upsert hserde hvalid hold.2 hold.1, fun row hrow ↦ ?_⟩
    rw [hone.snapshots] at hrow
    rw [hone.snapshotSeq]
    cases List.mem_append.mp hrow with
    | inl hbefore => exact Nat.le_succ_of_le (hold.2 row hbefore)
    | inr hnew =>
      rw [List.mem_singleton.mp hnew]
      exact le_rfl
  · intro committed db db' hold hadvanced
    unfold HeadsExact
    rw [hadvanced.heads, hadvanced.snapshots, hadvanced.snapshotSeq]
    exact hold

/-! ## The repair -/

/-- A complete chart index lists exactly the stored observations. -/
theorem observations_of_built (hserde : serde.RoundTrip) {rows : List SnapshotRow}
    {chart : ChartIndex} (hrows : ∀ row ∈ rows, Written row)
    (h : (chartProjection serde).Built rows chart) :
    chart.observations.map ObservationRow.snapshotId =
      (rows.filter fun row ↦ serde.isObservation row.snapshotJson).map SnapshotRow.id := by
  induction rows using List.reverseRecOn generalizing chart with
  | nil =>
    rw [Projection.built_nil.mp h]
    rfl
  | append_singleton rows row ih =>
    obtain ⟨middle, hmiddle, hrow⟩ := Projection.built_concat.mp h
    obtain ⟨snapshot, hdecode, hrun⟩ := indexRow_returns.mp hrow
    obtain ⟨written, hwritten⟩ := hrows row (by simp)
    obtain rfl : written = snapshot := by
      simpa [hwritten.decode hserde] using hdecode
    have hkind : serde.isObservation row.snapshotJson = !written.isEvent := by
      rw [hwritten.json]
      exact isObservation_encode hserde hwritten.valid
    have hold := ih (fun old hmem ↦ hrows old (List.mem_append_left _ hmem)) hmiddle
    rw [ChartIndex.eq_of_returns_insert hwritten.valid hrun, List.filter_append, List.map_append,
      ← hold]
    unfold ChartIndex.add
    cases hevent : written.isEvent with
    | true => simp [hkind, hevent, ChartIndex.touch]
    | false => simp [hkind, hevent, ChartIndex.observationOf]

theorem mem_observationIds (hserde : serde.RoundTrip) {db : Database} (hdb : Consistent db)
    (hchart : Complete (chartProjection serde) db.snapshots db.chart) {id : ℕ} :
    id ∈ observationIds db ↔
      ∃ row ∈ db.snapshots, row.id = id ∧ serde.isObservation row.snapshotJson = true := by
  obtain ⟨chart, hsome, hbuilt⟩ := hchart
  unfold observationIds
  rw [hsome, Option.elim_some, observations_of_built hserde hdb.rows.written hbuilt]
  simp only [List.mem_map, List.mem_filter]
  constructor
  · rintro ⟨row, ⟨hrow, hkind⟩, hid⟩
    exact ⟨row, hrow, hid, hkind⟩
  · rintro ⟨row, hrow, hid, hkind⟩
    exact ⟨row, ⟨hrow, hkind⟩, hid⟩

theorem RowsValid.eq_of_id {db : Database} (h : RowsValid db) {row row' : SnapshotRow}
    (hrow : row ∈ db.snapshots) (hrow' : row' ∈ db.snapshots) (hid : row.id = row'.id) :
    row = row' :=
  List.inj_on_of_nodup_map (h.ids_ascending.imp fun hlt ↦ ne_of_lt hlt) hrow hrow' hid

/-- With a complete chart index the indexed rows are the observations. -/
theorem filter_observationIds (hserde : serde.RoundTrip) {db : Database} (hdb : Consistent db)
    (hchart : Complete (chartProjection serde) db.snapshots db.chart) :
    (db.snapshots.filter fun row ↦ row.id ∈ observationIds db) =
      db.snapshots.filter fun row ↦ serde.isObservation row.snapshotJson := by
  refine List.filter_congr fun row hrow ↦ ?_
  rw [Bool.eq_iff_iff, decide_eq_true_eq, mem_observationIds hserde hdb hchart]
  constructor
  · rintro ⟨other, hother, hid, hkind⟩
    rw [← hdb.rows.eq_of_id hother hrow hid]
    exact hkind
  · exact fun hkind ↦ ⟨row, hrow, rfl, hkind⟩

/-- A head that points at an indexed row shares its pair with the greatest such row. -/
theorem lookup_maxHeads_ne_none {db : Database} {heads : List HeadRow} {run source : String}
    {head : HeadRow} (hvalid : HeadsValid db.snapshots heads)
    (hpruned : ∀ head ∈ heads, head.snapshotId ∈ observationIds db)
    (hold : Table.lookup headKey (run, source) heads = some head) :
    Table.lookup headKey (run, source) (maxHeads (db.snapshots.filter fun row ↦
      row.id ∈ observationIds db)) ≠ none := by
  intro hnew
  obtain ⟨hmem, hkey⟩ := Table.lookup_some hold
  obtain ⟨row, hrow, hid, hrun, hsource⟩ := hvalid.2 head hmem
  have hnone := lookup_maxHeads (db.snapshots.filter fun row ↦ row.id ∈ observationIds db)
    run source
  rw [hnew, Option.map_none, eq_comm, List.max?_eq_none_iff, List.map_eq_nil_iff,
    List.filter_eq_nil_iff] at hnone
  refine hnone row (List.mem_filter.mpr ⟨hrow, ?_⟩) ?_
  · rw [hid]
    exact decide_eq_true (hpruned head hmem)
  · obtain ⟨rfl, rfl⟩ := Prod.mk.inj hkey
    exact decide_eq_true ⟨hrun, hsource⟩

/-- The second statement of the repair, after the first has left only observations. -/
theorem insertHeads_exact (hserde : serde.RoundTrip) {db : Database} (hdb : Consistent db)
    (hchart : Complete (chartProjection serde) db.snapshots db.chart) {heads : List HeadRow}
    (hsome : db.heads = some heads) (hvalid : HeadsValid db.snapshots heads)
    (hpruned : ∀ head ∈ heads, head.snapshotId ∈ observationIds db) :
    HeadsExact serde (insertHeads db) := by
  refine ⟨(maxHeads (db.snapshots.filter fun row ↦ row.id ∈ observationIds db)).foldl
    (fun heads head ↦ upsertHead head heads) heads, ?_, nodup_foldl_upsertHead _ hvalid.1, ?_⟩
  · unfold insertHeads
    rw [hsome]
    rfl
  · intro run source
    have hmerged := Table.lookup_foldl_upsert headKey
      (fun (head old : HeadRow) ↦ { old with snapshotId := head.snapshotId }) HeadRow.snapshotId
      (fun _ _ h ↦ h) (fun _ _ ↦ rfl)
      (nodup_maxHeads (db.snapshots.filter fun row ↦ row.id ∈ observationIds db)) heads (run, source)
    have hsame : (db.snapshots.filter fun row ↦ serde.isObservation row.snapshotJson).filter
        (fun row ↦ row.runId = run ∧ row.sourceId = source) =
        db.snapshots.filter fun row ↦ row.runId = run ∧ row.sourceId = source ∧
          serde.isObservation row.snapshotJson := by
      rw [List.filter_filter]
      refine List.filter_congr fun row _ ↦ ?_
      simp [Bool.and_assoc]
    have hlatest : latestObservation serde run source (insertHeads db).snapshots =
        (Table.lookup headKey (run, source) (maxHeads (db.snapshots.filter fun row ↦
          row.id ∈ observationIds db))).map HeadRow.snapshotId := by
      rw [lookup_maxHeads, filter_observationIds hserde hdb hchart, hsame]
      rfl
    rw [hlatest]
    refine hmerged.trans ?_
    cases hnew : Table.lookup headKey (run, source) (maxHeads (db.snapshots.filter fun row ↦
        row.id ∈ observationIds db)) with
    | some head => rfl
    | none =>
      cases hold : Table.lookup headKey (run, source) heads with
      | none => rfl
      | some head => exact absurd hnew (lookup_maxHeads_ne_none hvalid hpruned hold)

end Rvx.Engine
