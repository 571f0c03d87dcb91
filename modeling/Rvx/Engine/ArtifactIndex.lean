import Rvx.Core.Artifacts
import Rvx.Engine.ChartIndex

/-!
# The artifact index

The tables that list the artifact records of tracker states.  A record that does not decode or
validate becomes an exclusion with its reason instead of failing the insertion.
-/

namespace Rvx.Engine

open Core

def VERSION : ℤ := 2

structure LineageRow where
  snapshotId : ℕ
  artifactIndex : ℤ
  runId : String
  sourceId : String
  observedAtNs : ℤ
  step : ℤ
  action : String
  name : String
  digest : String
  recordJson : String
deriving DecidableEq

structure AliasRow where
  snapshotId : ℕ
  artifactIndex : ℤ
  runId : String
  sourceId : String
  name : String
  aliasName : String
deriving DecidableEq

structure ExclusionRow where
  snapshotId : ℕ
  artifactIndex : ℤ
  runId : String
  sourceId : String
  reason : String
deriving DecidableEq

/-- The four artifact tables; the metadata row holds the version and the last indexed ID. -/
structure ArtifactIndex where
  version : ℤ
  lastId : ℕ
  lineage : List LineageRow
  aliases : List AliasRow
  exclusions : List ExclusionRow
deriving DecidableEq

namespace ArtifactIndex

/-- The tables a reset creates. -/
def empty : ArtifactIndex := ⟨VERSION, 0, [], [], []⟩

def lineageTable : StoreTable ArtifactIndex LineageRow (ℕ × ℤ) where
  key row := (row.snapshotId, row.artifactIndex)
  rows := lineage
  write new index := { index with lineage := new }
  rows_write _ _ := rfl
  write_write _ _ _ := rfl
  write_rows _ := rfl

def aliasTable : StoreTable ArtifactIndex AliasRow (ℕ × ℤ × String) where
  key row := (row.snapshotId, row.artifactIndex, row.aliasName)
  rows := aliases
  write new index := { index with aliases := new }
  rows_write _ _ := rfl
  write_write _ _ _ := rfl
  write_rows _ := rfl

def exclusionTable : StoreTable ArtifactIndex ExclusionRow (ℕ × ℤ) where
  key row := (row.snapshotId, row.artifactIndex)
  rows := exclusions
  write new index := { index with exclusions := new }
  rows_write _ _ := rfl
  write_write _ _ _ := rfl
  write_rows _ := rfl

def touch (id : ℕ) (index : ArtifactIndex) : ArtifactIndex := { index with lastId := id }

/-! ## Insertion -/

section Insert

/- `message` is the text of the JSON library's error for a value that is not a record. -/
variable (message : Value → String) (id : ℕ) (run source : String)

def exclude (index : ℤ) (reason : String) : Script ArtifactIndex EngineError Unit :=
  exclusionTable.insert .sqlite
    ⟨id, index, run, source, String.ofList (reason.toList.take 512)⟩

/-- One entry of the record list. -/
def insertRecord (observed step : ℤ) (index : ℕ) (value : Value) :
    Script ArtifactIndex EngineError Unit :=
  match ArtifactRecord.decode value with
  | none => exclude id run source index (message value)
  | some record =>
    match record.validate with
    | .error error => exclude id run source index error.message
    | .ok _ => do
      lineageTable.insert .sqlite
        ⟨id, index, run, source, observed, step, record.action.text, record.name, record.digest,
          record.encode⟩
      if record.action = .log then
        aliasTable.insertEach .sqlite (record.aliases.map fun name ↦
          ⟨id, index, run, source, record.name, name⟩)
      else pure ()

/-- The loop over the record list. -/
def insertRecords (observed step : ℤ) (index : ℕ) :
    List Value → Script ArtifactIndex EngineError Unit
  | [] => pure ()
  | value :: rest => do
    insertRecord message id run source observed step index value
    insertRecords observed step (index + 1) rest

/-- The records of a state that carries a tracker step. -/
def insertState (snapshot : StateSnapshot) : Script ArtifactIndex EngineError Unit :=
  match (snapshot.state.value.pointer "/tracker/step").bind Value.asI64 with
  | none => pure ()
  | some step =>
    match snapshot.state.value.get? "artifacts" with
    | none => pure ()
    | some (.array records) =>
      insertRecords message id run source snapshot.observedAtNs step 0 records
    | some _ => exclude id run source (-1) "artifacts must be an array"

def insert (snapshot : StateSnapshot) : Script ArtifactIndex EngineError Unit := do
  insertState message id run source snapshot
  Script.modify (touch id)

end Insert

/-! ## Insertion succeeds -/

/-- All rows belong to snapshots before `id`, or to records of `id` before `index`. -/
structure Before (id : ℕ) (index : ℤ) (artifacts : ArtifactIndex) : Prop where
  lineage : ∀ row ∈ artifacts.lineage,
    row.snapshotId < id ∨ (row.snapshotId = id ∧ row.artifactIndex < index)
  aliases : ∀ row ∈ artifacts.aliases,
    row.snapshotId < id ∨ (row.snapshotId = id ∧ row.artifactIndex < index)
  exclusions : ∀ row ∈ artifacts.exclusions,
    row.snapshotId < id ∨ (row.snapshotId = id ∧ row.artifactIndex < index)

variable (message : Value → String) {id : ℕ} (run source : String)

theorem Before.mono {index : ℤ} {artifacts : ArtifactIndex} (h : artifacts.Before id index)
    (id' : ℕ) (index' : ℤ) (hid : id < id' ∨ (id = id' ∧ index ≤ index')) :
    artifacts.Before id' index' := by
  have hweaken (rowId : ℕ) (rowIndex : ℤ)
      (hrow : rowId < id ∨ (rowId = id ∧ rowIndex < index)) :
      rowId < id' ∨ (rowId = id' ∧ rowIndex < index') := by omega
  exact ⟨fun row hrow ↦ hweaken _ _ (h.lineage row hrow),
    fun row hrow ↦ hweaken _ _ (h.aliases row hrow),
    fun row hrow ↦ hweaken _ _ (h.exclusions row hrow)⟩

/-- The part of the index an insertion leaves alone until its last statement. -/
abbrev SameMeta (artifacts artifacts' : ArtifactIndex) : Prop :=
  artifacts'.version = artifacts.version ∧ artifacts'.lastId = artifacts.lastId

theorem exclude_returns {index : ℤ} (reason : String) {artifacts : ArtifactIndex}
    (h : artifacts.Before id index) :
    ∃ artifacts', (exclude id run source index reason).Returns artifacts () artifacts' ∧
      artifacts'.Before id (index + 1) ∧ SameMeta artifacts artifacts' := by
  have hnext := h.mono id (index + 1) (Or.inr ⟨rfl, by omega⟩)
  refine ⟨_, StoreTable.returns_insert.mpr ⟨?_, rfl⟩, ⟨hnext.lineage, hnext.aliases, ?_⟩, rfl, rfl⟩
  · intro old hold heq
    simp only [exclusionTable, Prod.mk.injEq] at hold heq
    have hbefore := h.exclusions old hold
    omega
  · intro row hrow
    cases List.mem_append.mp hrow with
    | inl hold => exact hnext.exclusions row hold
    | inr hnew =>
      rw [List.mem_singleton.mp hnew]
      exact Or.inr ⟨rfl, by dsimp only; omega⟩

theorem insertRecord_returns (observed step : ℤ) {index : ℕ} (value : Value)
    {artifacts : ArtifactIndex} (h : artifacts.Before id index) :
    ∃ artifacts', (insertRecord message id run source observed step index value).Returns artifacts
        () artifacts' ∧ artifacts'.Before id (index + 1) ∧ SameMeta artifacts artifacts' := by
  unfold insertRecord
  cases hdecode : ArtifactRecord.decode value with
  | none => exact exclude_returns run source _ h
  | some record =>
    dsimp only
    cases hvalidate : record.validate with
    | error error => exact exclude_returns run source _ h
    | ok value =>
      have hnext := h.mono id (index + 1) (Or.inr ⟨rfl, by omega⟩)
      have hfresh : ∀ old ∈ lineageTable.rows artifacts, lineageTable.key old ≠ (id, (index : ℤ)) := by
        intro old hold heq
        simp only [lineageTable, Prod.mk.injEq] at hold heq
        have hbefore := h.lineage old hold
        omega
      have hlineage (row : LineageRow) (hid : row.snapshotId = id) (hindex : row.artifactIndex = index) :
          ∀ other ∈ artifacts.lineage ++ [row],
            other.snapshotId < id ∨ (other.snapshotId = id ∧ other.artifactIndex < index + 1) := by
        intro other hother
        cases List.mem_append.mp hother with
        | inl hold => exact hnext.lineage other hold
        | inr hnew =>
          rw [List.mem_singleton.mp hnew]
          exact Or.inr ⟨hid, by omega⟩
      by_cases hlog : record.action = .log
      · simp only [hlog, if_true, Script.returns_bind, StoreTable.returns_insert]
        refine ⟨_, ⟨(), _, ⟨hfresh, rfl⟩, StoreTable.returns_insertEach ?_ ?_⟩,
          ⟨hlineage _ rfl rfl, ?_, hnext.exclusions⟩, rfl, rfl⟩
        · have hnodup := ArtifactRecord.aliases_nodup hvalidate
          rw [List.map_map]
          refine hnodup.map fun left right heq ↦ ?_
          simpa [aliasTable] using heq
        · intro row hrow old hold heq
          obtain ⟨name, -, rfl⟩ := List.mem_map.mp hrow
          simp only [aliasTable, lineageTable, Prod.mk.injEq] at hold heq
          have hbefore := h.aliases old hold
          omega
        · intro row hrow
          cases List.mem_append.mp hrow with
          | inl hold => exact hnext.aliases row hold
          | inr hnew =>
            obtain ⟨name, -, rfl⟩ := List.mem_map.mp hnew
            exact Or.inr ⟨rfl, by dsimp only; omega⟩
      · simp only [hlog, if_false, Script.returns_bind, StoreTable.returns_insert,
          Script.returns_pure]
        exact ⟨_, ⟨(), _, ⟨hfresh, rfl⟩, trivial, rfl⟩,
          ⟨hlineage _ rfl rfl, hnext.aliases, hnext.exclusions⟩, rfl, rfl⟩

theorem insertRecords_returns (observed step : ℤ) (index : ℕ) (values : List Value)
    {artifacts : ArtifactIndex} (h : artifacts.Before id index) :
    ∃ artifacts', (insertRecords message id run source observed step index values).Returns
        artifacts () artifacts' ∧ artifacts'.Before (id + 1) (-1) ∧
        SameMeta artifacts artifacts' := by
  induction values generalizing index artifacts with
  | nil =>
    exact ⟨artifacts, by simp [insertRecords], h.mono _ _ (Or.inl (Nat.lt_succ_self id)), rfl, rfl⟩
  | cons value rest ih =>
    obtain ⟨middle, hvalue, hmiddle, hversion, hlast⟩ := insertRecord_returns message run source
      observed step value h
    obtain ⟨artifacts', hrest, hdone, hversion', hlast'⟩ := ih (index + 1)
      (by exact_mod_cast hmiddle)
    refine ⟨artifacts', ?_, hdone, hversion'.trans hversion, hlast'.trans hlast⟩
    simp only [insertRecords, Script.returns_bind]
    exact ⟨(), middle, hvalue, hrest⟩

theorem insertState_returns (snapshot : StateSnapshot) {artifacts : ArtifactIndex}
    (h : artifacts.Before id (-1)) :
    ∃ artifacts', (insertState message id run source snapshot).Returns artifacts () artifacts' ∧
      artifacts'.Before (id + 1) (-1) ∧ SameMeta artifacts artifacts' := by
  have hnext := h.mono (id + 1) (-1) (Or.inl (Nat.lt_succ_self id))
  unfold insertState
  split
  · exact ⟨artifacts, by simp, hnext, rfl, rfl⟩
  · split
    · exact ⟨artifacts, by simp, hnext, rfl, rfl⟩
    · exact insertRecords_returns message run source _ _ 0 _ (h.mono _ _ (Or.inr ⟨rfl, by simp⟩))
    · obtain ⟨artifacts', hrun, hbefore, hmeta⟩ := exclude_returns run source
        "artifacts must be an array" h
      exact ⟨artifacts', hrun, hbefore.mono _ _ (Or.inl (Nat.lt_succ_self id)), hmeta⟩

/-- A snapshot with a fresh ID is always inserted. -/
theorem insert_returns (snapshot : StateSnapshot) {artifacts : ArtifactIndex}
    (h : artifacts.Before id (-1)) :
    ∃ artifacts', (insert message id run source snapshot).Returns artifacts () artifacts' ∧
      artifacts'.Before (id + 1) (-1) ∧ artifacts'.version = artifacts.version ∧
      artifacts'.lastId = id := by
  obtain ⟨middle, hrun, hbefore, hversion, -⟩ := insertState_returns message run source snapshot h
  refine ⟨middle.touch id, ?_, ⟨hbefore.lineage, hbefore.aliases, hbefore.exclusions⟩, hversion, rfl⟩
  simp only [insert, Script.returns_bind, Script.returns_modify]
  exact ⟨(), middle, hrun, rfl⟩

end ArtifactIndex

end Rvx.Engine
