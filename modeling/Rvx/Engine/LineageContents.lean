import Rvx.Core.ArtifactLineage
import Rvx.Engine.Projections

/-!
# What the artifact index lists

The lineage is a function of the stored snapshots: the valid records of every snapshot with a
tracker step, in the order of the snapshots and of the records within them.
-/

namespace Rvx.Engine

open Core Script Database

variable {serde : Serde}

namespace ArtifactIndex

section Contents

variable (id : ℕ) (run source : String)

/-- The row of one listed value, if it is a valid record. -/
def recordRow (observed step : ℤ) (index : ℕ) (value : Value) : Option LineageRow :=
  match ArtifactRecord.decode value with
  | none => none
  | some record =>
    match record.validate with
    | .error _ => none
    | .ok _ => some ⟨id, index, run, source, observed, step, record.action.text, record.name,
        record.digest, record.encode⟩

/-- The rows of the listed values from an index on. -/
def recordRows (observed step : ℤ) (index : ℕ) (values : List Value) : List LineageRow :=
  (values.zipIdx index).filterMap fun entry ↦
    recordRow id run source observed step entry.2 entry.1

/-- The rows of a snapshot. -/
def lineageOf (snapshot : StateSnapshot) : List LineageRow :=
  match (snapshot.state.value.pointer "/tracker/step").bind Value.asI64,
    snapshot.state.value.get? "artifacts" with
  | some step, some (.array values) =>
    recordRows id run source snapshot.observedAtNs step 0 values
  | _, _ => []

end Contents

variable {message : Value → String} {id : ℕ} {run source : String}
  {artifacts artifacts' : ArtifactIndex}

theorem lineage_of_exclude {index : ℤ} {reason : String}
    (h : (exclude id run source index reason).Returns artifacts () artifacts') :
    artifacts'.lineage = artifacts.lineage := by
  rw [exclude, StoreTable.returns_insert] at h
  rw [h.2]
  rfl

theorem lineage_of_insertRecord {observed step : ℤ} {index : ℕ} {value : Value}
    (h : (insertRecord message id run source observed step index value).Returns artifacts ()
      artifacts') :
    artifacts'.lineage =
      artifacts.lineage ++ (recordRow id run source observed step index value).toList := by
  unfold insertRecord at h
  unfold recordRow
  cases hdecode : ArtifactRecord.decode value with
  | none =>
    rw [hdecode] at h
    simpa using lineage_of_exclude h
  | some record =>
    rw [hdecode] at h
    dsimp only at h ⊢
    cases hvalidate : record.validate with
    | error error =>
      rw [hvalidate] at h
      simpa using lineage_of_exclude h
    | ok value =>
      rw [hvalidate] at h
      dsimp only at h
      rw [returns_bind] at h
      obtain ⟨_, middle, hrow, hrest⟩ := h
      have hmiddle := (StoreTable.returns_insert.mp hrow).2
      split at hrest
      · have haliases := StoreTable.eq_of_returns_insertEach hrest
        rw [haliases, hmiddle]
        rfl
      · rw [returns_pure] at hrest
        rw [← hrest.2, hmiddle]
        rfl

theorem lineage_of_insertRecords {observed step : ℤ} {index : ℕ} {values : List Value}
    (h : (insertRecords message id run source observed step index values).Returns artifacts ()
      artifacts') :
    artifacts'.lineage =
      artifacts.lineage ++ recordRows id run source observed step index values := by
  induction values generalizing index artifacts with
  | nil =>
    simp only [insertRecords, returns_pure] at h
    simp [recordRows, h.2]
  | cons value rest ih =>
    simp only [insertRecords, returns_bind] at h
    obtain ⟨_, middle, hvalue, hrest⟩ := h
    rw [ih hrest, lineage_of_insertRecord hvalue, List.append_assoc]
    congr 1
    unfold recordRows
    rw [List.zipIdx_cons]
    cases hrow : recordRow id run source observed step index value <;> simp [hrow]

theorem lineage_of_insert {snapshot : StateSnapshot}
    (h : (insert message id run source snapshot).Returns artifacts () artifacts') :
    artifacts'.lineage = artifacts.lineage ++ lineageOf id run source snapshot := by
  simp only [insert, returns_bind, returns_modify] at h
  obtain ⟨_, middle, hstate, rfl⟩ := h
  have hmiddle : middle.lineage = artifacts.lineage ++ lineageOf id run source snapshot := by
    unfold insertState at hstate
    unfold lineageOf
    split at hstate
    · rename_i hnone
      rw [returns_pure] at hstate
      simp [hnone, hstate.2]
    · rename_i step hstep
      rw [hstep]
      split at hstate
      · rename_i hget
        rw [returns_pure] at hstate
        simp [hget, hstate.2]
      · rename_i values hget
        rw [hget]
        exact lineage_of_insertRecords hstate
      · rename_i other hother hget
        rw [lineage_of_exclude hstate, hget]
        cases other with
        | array values => exact absurd rfl (hother values)
        | _ => simp
  exact hmiddle

end ArtifactIndex

/-- The lineage rows of a stored row. -/
def rowLineage (serde : Serde) (row : SnapshotRow) : List LineageRow :=
  (serde.snapshot row.snapshotJson).elim []
    (ArtifactIndex.lineageOf row.id row.runId row.sourceId)

/-- The index of some rows lists their records. -/
theorem lineage_of_built {rows : List SnapshotRow} {artifacts : ArtifactIndex}
    (h : (artifactProjection serde).Built rows artifacts) :
    artifacts.lineage = rows.flatMap (rowLineage serde) := by
  induction rows using List.reverseRecOn generalizing artifacts with
  | nil =>
    rw [Projection.built_nil.mp h]
    rfl
  | append_singleton rows row ih =>
    obtain ⟨middle, hmiddle, hrow⟩ := Projection.built_concat.mp h
    obtain ⟨snapshot, hdecode, hrun⟩ := indexRow_returns.mp hrow
    rw [ArtifactIndex.lineage_of_insert hrun, ih hmiddle, List.flatMap_append,
      List.flatMap_singleton, rowLineage, hdecode]
    rfl

/-! ## The rows of a snapshot -/

/-- A lineage row and the snapshot row that lists its record. -/
structure Lists (row : SnapshotRow) (snapshot : StateSnapshot) (listed : LineageRow) : Prop where
  id : listed.snapshotId = row.id
  run : listed.runId = row.runId
  source : listed.sourceId = row.sourceId
  observed : listed.observedAtNs = snapshot.observedAtNs
  step : IsI64 listed.step
  record : ∃ (values : List Value) (index : ℕ) (value : Value) (record : ArtifactRecord),
    snapshot.state.value.get? "artifacts" = some (.array values) ∧ values[index]? = some value ∧
      listed.artifactIndex = index ∧ ArtifactRecord.decode value = some record ∧
      record.validate = .ok () ∧ listed.recordJson = record.encode

theorem isI64_of_asI64 {value : Value} {step : ℤ} (h : value.asI64 = some step) : IsI64 step := by
  unfold Value.asI64 Number.asI64 at h
  obtain ⟨number, -, hnumber⟩ := Option.bind_eq_some_iff.mp h
  split at hnumber
  · rename_i hvalid
    exact Option.some.inj hnumber ▸ hvalid.2
  · simp at hnumber

theorem lists_of_mem {row : SnapshotRow} {snapshot : StateSnapshot} {listed : LineageRow}
    (hdecode : serde.snapshot row.snapshotJson = some snapshot)
    (h : listed ∈ rowLineage serde row) : Lists row snapshot listed := by
  rw [rowLineage, hdecode, Option.elim_some] at h
  unfold ArtifactIndex.lineageOf at h
  split at h
  · rename_i step values hstep hget
    obtain ⟨value, -, hvalue⟩ := Option.bind_eq_some_iff.mp hstep
    obtain ⟨⟨item, index⟩, hentry, hrow⟩ := List.mem_filterMap.mp h
    have hitem : values[index]? = some item := List.mem_zipIdx_iff_getElem?.mp hentry
    unfold ArtifactIndex.recordRow at hrow
    split at hrow
    · simp at hrow
    · rename_i record hrecord
      split at hrow
      · simp at hrow
      · rename_i hvalid
        rw [Option.some.injEq] at hrow
        subst hrow
        exact ⟨rfl, rfl, rfl, rfl, isI64_of_asI64 hvalue,
          values, index, item, record, hget, hitem, rfl, hrecord, hvalid, rfl⟩
  · simp at h

theorem snapshotId_of_mem {row : SnapshotRow} {listed : LineageRow}
    (h : listed ∈ rowLineage serde row) : listed.snapshotId = row.id := by
  cases hdecode : serde.snapshot row.snapshotJson with
  | none => simp [rowLineage, hdecode] at h
  | some snapshot => exact (lists_of_mem hdecode h).id

/-- The records of a snapshot are listed in their order. -/
theorem ordered_rowLineage (row : SnapshotRow) :
    (rowLineage serde row).Pairwise fun listed other ↦
      listed.artifactIndex < other.artifactIndex := by
  unfold rowLineage
  cases serde.snapshot row.snapshotJson with
  | none => exact List.Pairwise.nil
  | some snapshot =>
    rw [Option.elim_some]
    unfold ArtifactIndex.lineageOf
    split
    · rename_i step values _ _
      have hindexes : ((values.zipIdx 0).map Prod.snd).Pairwise (· < ·) := by
        rw [List.zipIdx_map_snd]
        exact List.pairwise_lt_range'
      rw [ArtifactIndex.recordRows, List.pairwise_filterMap]
      rw [List.pairwise_map] at hindexes
      refine hindexes.imp fun {entry other} hlt listed hlisted later hlater ↦ ?_
      have hindex {entry : Value × ℕ} {listed : LineageRow} (h : ArtifactIndex.recordRow row.id
          row.runId row.sourceId snapshot.observedAtNs step entry.2 entry.1 = some listed) :
          listed.artifactIndex = entry.2 := by
        unfold ArtifactIndex.recordRow at h
        split at h
        · simp at h
        · split at h
          · simp at h
          · rw [← Option.some.inj h]
      rw [hindex hlisted, hindex hlater]
      exact Nat.cast_lt.mpr hlt
    · exact List.Pairwise.nil

/-- The place of a lineage row. -/
def LineageRow.place (listed : LineageRow) : ℕ ×ₗ ℤ :=
  toLex (listed.snapshotId, listed.artifactIndex)

/-- The rows of snapshots with ascending IDs are in the order of their places. -/
theorem ordered_lineage {rows : List SnapshotRow} (h : (rows.map SnapshotRow.id).Pairwise (· < ·)) :
    (rows.flatMap (rowLineage serde)).Pairwise fun listed other ↦ listed.place < other.place := by
  rw [List.pairwise_flatMap]
  constructor
  · intro row _
    refine (ordered_rowLineage row).imp_of_mem fun {listed other} hlisted hother hlt ↦ ?_
    rw [LineageRow.place, LineageRow.place, snapshotId_of_mem hlisted, snapshotId_of_mem hother]
    exact Prod.Lex.toLex_lt_toLex.mpr (Or.inr ⟨rfl, hlt⟩)
  · refine (List.pairwise_map.mp h).imp fun {row later} hlt listed hlisted other hother ↦ ?_
    rw [LineageRow.place, LineageRow.place, snapshotId_of_mem hlisted, snapshotId_of_mem hother]
    exact Prod.Lex.toLex_lt_toLex.mpr (Or.inl hlt)

end Rvx.Engine
