import Rvx.Tables.Rows

/-!
# What a read loads

A read loads one row after another.  Every loaded snapshot belongs to a selected source, and no two
of them to the same one.
-/

namespace Rvx.Tables

open Core Engine Check StableSort

variable {serde : Serde} {sources : List Source} {db : Database} {state state' loaded : Loading}
  {budget budget' : WorkBudget} {ids : List ℤ}

/-! ## One snapshot -/

theorem fromRow_ok {row : SnapshotRow} {stored : StoredSnapshot}
    (h : fromRow serde row = .ok stored) : ∃ snapshot, serde.snapshot row.snapshotJson = some snapshot ∧
      stored = ⟨row.id, row.runId, row.sourceId, row.ingestedAtNs, snapshot⟩ := by
  unfold fromRow at h
  cases hsnapshot : serde.snapshot row.snapshotJson with
  | none =>
    rw [hsnapshot] at h
    cases h
  | some snapshot =>
    rw [hsnapshot] at h
    exact ⟨snapshot, rfl, (Except.ok.inj h).symm⟩

/-- What loading one more snapshot does. -/
theorem loadSnapshot_ok {id : ℤ}
    (h : (loadSnapshot serde sources db state id).Returns budget state' budget') :
    ∃ row snapshot, (db.snapshots.find? fun row ↦ (row.id : ℤ) = id) = some row ∧
      serde.snapshot row.snapshotJson = some snapshot ∧
      (∃ source ∈ sources, source.id = row.sourceId ∧ source.runId = row.runId) ∧
      row.sourceId ∉ state.seen ∧
      state.bytes + row.snapshotJson.utf8ByteSize ≤ MAX_TABLE_SCAN_BYTES ∧
      (WorkBudget.tree snapshot.state.value).Returns budget () budget' ∧
      state' = ⟨state.bytes + row.snapshotJson.utf8ByteSize,
        OrderedSet.insert row.sourceId state.seen,
        state.result ++ [⟨row.id, row.runId, row.sourceId, row.ingestedAtNs, snapshot⟩]⟩ := by
  unfold loadSnapshot at h
  cases hfind : db.snapshots.find? fun row ↦ (row.id : ℤ) = id with
  | none =>
    rw [hfind] at h
    simp at h
  | some row =>
    rw [hfind] at h
    simp only [Script.returns_bind, Script.returns_check, Script.returns_pure, reject_ok, not_not,
      not_lt, gt_iff_lt] at h
    obtain ⟨_, _, ⟨hselected, rfl⟩, _, _, ⟨hseen, rfl⟩, _, _, ⟨hbytes, rfl⟩, stored, _, ⟨hstored, rfl⟩,
      _, _, htree, rfl, rfl⟩ := h
    obtain ⟨snapshot, hsnapshot, rfl⟩ := fromRow_ok hstored
    rw [List.any_eq_true] at hselected
    obtain ⟨source, hsource, heq⟩ := hselected
    rw [Bool.and_eq_true, decide_eq_true_eq, decide_eq_true_eq] at heq
    exact ⟨row, snapshot, rfl, hsnapshot, ⟨source, hsource, heq⟩, hseen, hbytes, htree, rfl⟩

/-! ## All snapshots -/

/-- Snapshots of different selected sources, which are the sources that were seen. -/
structure Loaded (sources : List Source) (state : Loading) : Prop where
  selected : ∀ snapshot ∈ state.result, ∃ source ∈ sources,
    source.id = snapshot.sourceId ∧ source.runId = snapshot.runId
  seen : ∀ id, id ∈ state.seen ↔ id ∈ state.result.map StoredSnapshot.sourceId
  distinct : (state.result.map StoredSnapshot.sourceId).Nodup

theorem Loaded.step (h : Loaded sources state) {id : ℤ}
    (hload : (loadSnapshot serde sources db state id).Returns budget state' budget') :
    Loaded sources state' := by
  obtain ⟨row, snapshot, -, -, hselected, hunseen, -, -, rfl⟩ := loadSnapshot_ok hload
  constructor
  · intro other hother
    obtain hold | hnew := List.mem_append.mp hother
    · exact h.selected other hold
    · rw [List.mem_singleton.mp hnew]
      exact hselected
  · intro id
    rw [OrderedSet.mem_insert, h.seen, List.map_append, List.mem_append, List.map_singleton,
      List.mem_singleton, or_comm]
  · rw [List.map_append, List.map_singleton, List.nodup_append]
    refine ⟨h.distinct, List.nodup_singleton _, fun id hid other hother ↦ ?_⟩
    rw [List.mem_singleton.mp hother]
    rintro rfl
    exact hunseen ((h.seen _).mpr hid)

theorem loadSnapshots_loaded
    (h : (loadSnapshots serde sources db ids).Returns budget loaded budget') :
    Loaded sources loaded := by
  have hstart : Loaded sources ⟨0, OrderedMap.empty, []⟩ := by
    refine ⟨by simp, fun id ↦ ?_, List.nodup_nil⟩
    simp [OrderedMap.mem_def, OrderedMap.keys, OrderedMap.empty]
  exact Script.Returns.foldlM (fun _ _ _ _ _ _ hstate hload ↦ hstate.step hload) hstart h

theorem tableSnapshots_ok {runtime : Runtime} {pinned : Option (List String)}
    {requireAll : Bool} {snapshots : List StoredSnapshot}
    (h : tableSnapshots serde sources db runtime pinned requireAll = .ok snapshots) :
    ∃ ids loaded budget,
      (loadSnapshots serde sources db ids).Returns WorkBudget.empty loaded budget ∧
        snapshots = sortOn sourceKey loaded.result := by
  have hread {ids : List ℤ} (hids : (do
      let loaded ← (loadSnapshots serde sources db ids WorkBudget.empty).1
      reject (requireAll = true ∧ (loaded.result = [] ∨ loaded.seen.size ≠ sources.length))
        (.invalidInput ("table rows require one completed snapshot for every selected Source; " ++
          "select source_ids explicitly"))
      return sortOn sourceKey loaded.result) = Except.ok (ε := EngineError) snapshots) :
      ∃ ids loaded budget,
        (loadSnapshots serde sources db ids).Returns WorkBudget.empty loaded budget ∧
          snapshots = sortOn sourceKey loaded.result := by
    simp only [bind_eq_ok, pure_eq_ok] at hids
    obtain ⟨loaded, hload, _, -, heq⟩ := hids
    exact ⟨ids, loaded, _, Prod.ext hload rfl, heq.symm⟩
  unfold tableSnapshots at h
  cases pinned with
  | none =>
    obtain ⟨ids, -, hids⟩ := bind_eq_ok.mp h
    exact hread hids
  | some pinned =>
    obtain ⟨ids, -, hids⟩ := bind_eq_ok.mp h
    exact hread hids

theorem tableSnapshots_source {runtime : Runtime} {pinned : Option (List String)}
    {requireAll : Bool} {snapshots : List StoredSnapshot}
    (h : tableSnapshots serde sources db runtime pinned requireAll = .ok snapshots) :
    ∀ snapshot ∈ snapshots, ∃ source ∈ sources, source.id = snapshot.sourceId := by
  obtain ⟨ids, loaded, budget, hload, rfl⟩ := tableSnapshots_ok h
  intro snapshot hsnapshot
  obtain ⟨source, hsource, heq, -⟩ :=
    (loadSnapshots_loaded hload).selected snapshot (mem_sortOn.mp hsnapshot)
  exact ⟨source, hsource, heq⟩

/-- The snapshots of a read are those of different sources, in the order of their sources. -/
theorem tableSnapshots_ordered {runtime : Runtime} {pinned : Option (List String)}
    {requireAll : Bool} {snapshots : List StoredSnapshot}
    (h : tableSnapshots serde sources db runtime pinned requireAll = .ok snapshots) :
    snapshots.Pairwise fun snapshot other ↦ sourceKey snapshot < sourceKey other := by
  obtain ⟨ids, loaded, budget, hload, rfl⟩ := tableSnapshots_ok h
  apply ordered_sortOn
  have hdistinct := (loadSnapshots_loaded hload).distinct
  rw [List.Nodup, List.pairwise_map] at hdistinct ⊢
  refine hdistinct.imp fun {snapshot other} hne heq ↦ hne ?_
  exact (Prod.mk.inj (toLex.injective heq)).2

end Rvx.Tables
