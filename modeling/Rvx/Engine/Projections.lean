import Rvx.Engine.Batch
import Rvx.Engine.ChartInsert
import Rvx.Engine.Lifecycle
import Rvx.Lib.Projection

/-!
# The indexes as projections

The chart index and the artifact index are projections of the snapshot table.  A rebuild
transaction is a chunk of the projection, and ingestion inserts the row it has just stored.
-/

namespace Rvx.Engine

open Core Script Database

variable {serde : Serde}

/-! ## Decoding stored rows -/

theorem WrittenFrom.decode {row : SnapshotRow} {snapshot : StateSnapshot}
    (h : WrittenFrom row snapshot) (hserde : serde.RoundTrip) :
    serde.snapshot row.snapshotJson = some snapshot := by
  rw [h.json]
  exact hserde snapshot h.valid

theorem indexRow_returns {σ : Type}
    {insert : ℕ → String → String → StateSnapshot → Script σ EngineError Unit}
    {row : SnapshotRow} {index index' : σ} :
    (indexRow serde insert row).Returns index () index' ↔
      ∃ snapshot, serde.snapshot row.snapshotJson = some snapshot ∧
        (insert row.id row.runId row.sourceId snapshot).Returns index () index' := by
  unfold indexRow
  cases serde.snapshot row.snapshotJson with
  | none => simp
  | some snapshot => simp

/-! ## The projections -/

theorem ChartIndex.lastId_of_returns {id : ℕ} {run source : String} {snapshot : StateSnapshot}
    {chart chart' : ChartIndex} (h : (insert id run source snapshot).Returns chart () chart') :
    chart'.lastId = id := by
  simp only [insert, returns_bind, returns_ite, returns_modify] at h
  obtain ⟨_, _, _, ⟨-, rfl⟩ | ⟨-, hbody⟩⟩ := h
  · rfl
  · obtain ⟨_, _, -, _, _, -, _, _, -, _, _, -, _, _, -, _, _, -, _, _, -, _, _, -, rfl⟩ := hbody
    rfl

theorem ArtifactIndex.lastId_of_returns {message : Value → String} {id : ℕ}
    {run source : String} {snapshot : StateSnapshot} {artifacts artifacts' : ArtifactIndex}
    (h : (insert message id run source snapshot).Returns artifacts () artifacts') :
    artifacts'.lastId = id := by
  simp only [insert, returns_bind, returns_modify] at h
  obtain ⟨_, _, _, rfl⟩ := h
  rfl

/-- The chart index as a projection of the snapshot table. -/
def chartProjection (serde : Serde) : Projection SnapshotRow ChartIndex EngineError where
  id := SnapshotRow.id
  empty := .empty
  watermark := ChartIndex.lastId
  insert := indexRow serde ChartIndex.insert
  watermark_empty := rfl
  watermark_insert := fun h ↦ by
    obtain ⟨snapshot, -, hrun⟩ := indexRow_returns.mp h
    exact ChartIndex.lastId_of_returns hrun

/-- The artifact index as a projection of the snapshot table. -/
def artifactProjection (serde : Serde) : Projection SnapshotRow ArtifactIndex EngineError where
  id := SnapshotRow.id
  empty := .empty
  watermark := ArtifactIndex.lastId
  insert := indexRow serde (ArtifactIndex.insert serde.artifactMessage)
  watermark_empty := rfl
  watermark_insert := fun h ↦ by
    obtain ⟨snapshot, -, hrun⟩ := indexRow_returns.mp h
    exact ArtifactIndex.lastId_of_returns hrun

theorem RowsValid.chartAscending {db : Database} (h : RowsValid db) :
    (chartProjection serde).Ascending db.snapshots := ⟨h.ids_ascending, h.ids_pos⟩

theorem RowsValid.artifactAscending {db : Database} (h : RowsValid db) :
    (artifactProjection serde).Ascending db.snapshots := ⟨h.ids_ascending, h.ids_pos⟩

/-! ## Insertions succeed -/

/-- A row some valid snapshot was written to. -/
def Written (row : SnapshotRow) : Prop := ∃ snapshot, WrittenFrom row snapshot

theorem ChartIndex.Before.mono {id id' : ℕ} {chart : ChartIndex} (h : chart.Before id)
    (hle : id ≤ id') : chart.Before id' :=
  ⟨fun row hrow ↦ (h.values row hrow).trans_le hle, fun row hrow ↦ (h.axes row hrow).trans_le hle,
    fun row hrow ↦ (h.observations row hrow).trans_le hle⟩

theorem chartProjection_total (hserde : serde.RoundTrip) :
    (chartProjection serde).Total Written (fun id chart ↦ chart.Before id) where
  fresh_empty _ := ⟨by simp [chartProjection, ChartIndex.empty],
    by simp [chartProjection, ChartIndex.empty], by simp [chartProjection, ChartIndex.empty]⟩
  fresh_mono := ChartIndex.Before.mono
  insert := by
    rintro row chart ⟨snapshot, hwritten⟩ hfresh
    exact ⟨_, indexRow_returns.mpr ⟨snapshot, hwritten.decode hserde,
      ChartIndex.insert_returns hwritten.valid hfresh⟩, ChartIndex.before_add hfresh⟩

theorem artifactProjection_total (hserde : serde.RoundTrip) :
    (artifactProjection serde).Total Written (fun id artifacts ↦ artifacts.Before id (-1)) where
  fresh_empty _ := ⟨by simp [artifactProjection, ArtifactIndex.empty],
    by simp [artifactProjection, ArtifactIndex.empty],
    by simp [artifactProjection, ArtifactIndex.empty]⟩
  fresh_mono h hle := h.mono _ _ (by omega)
  insert := by
    rintro row artifacts ⟨snapshot, hwritten⟩ hfresh
    obtain ⟨artifacts', hrun, hbefore, -⟩ := ArtifactIndex.insert_returns serde.artifactMessage
      row.runId row.sourceId snapshot hfresh
    exact ⟨artifacts', indexRow_returns.mpr ⟨snapshot, hwritten.decode hserde, hrun⟩, hbefore⟩

/-! ## Rebuild transactions -/

section Chunk

variable {σ : Type} {insert : ℕ → String → String → StateSnapshot → Script σ EngineError Unit}
  {stopWhenFull : Bool} {count bytes n : ℕ} {rows : List SnapshotRow} {index index' : σ}

/-- A rebuild transaction inserts a prefix of the rows it reads, and at least the first one. -/
theorem indexRows_returns
    (h : (indexRows serde insert stopWhenFull count bytes rows).Returns index n index') :
    ∃ taken, taken <+: rows ∧ n = count + taken.length ∧
      (count = 0 → rows ≠ [] → taken ≠ []) ∧
      (forEach taken (indexRow serde insert)).Returns index () index' := by
  induction rows generalizing count bytes index with
  | nil =>
    simp only [indexRows, returns_pure] at h
    obtain ⟨rfl, rfl⟩ := h
    exact ⟨[], List.prefix_rfl, rfl, fun _ hne ↦ hne, by simp [forEach]⟩
  | cons row rest ih =>
    simp only [indexRows, returns_ite, returns_bind, returns_pure] at h
    rcases h with ⟨hfull, rfl, rfl⟩ | ⟨-, _, middle, hrow, hrest⟩
    · exact ⟨[], List.nil_prefix, rfl, fun hzero ↦ by omega, by simp [forEach]⟩
    · rcases hrest with ⟨-, rfl, rfl⟩ | ⟨-, hrest⟩
      · refine ⟨[row], ⟨rest, rfl⟩, rfl, by simp, ?_⟩
        simp only [forEach, returns_bind, returns_pure]
        exact ⟨(), middle, hrow, trivial, rfl⟩
      · obtain ⟨taken, hprefix, hcount, -, hrun⟩ := ih hrest
        refine ⟨row :: taken, List.cons_prefix_cons.mpr ⟨rfl, hprefix⟩, ?_, by simp, ?_⟩
        · rw [hcount, List.length_cons]
          omega
        · simp only [forEach, returns_bind]
          exact ⟨(), middle, hrow, hrun⟩

/-- A rebuild transaction succeeds if all the rows it reads can be inserted. -/
theorem indexRows_isOk (stopWhenFull : Bool) (count bytes : ℕ) {stop : σ}
    (h : (forEach rows (indexRow serde insert)).Returns index () stop) :
    ∃ n index', (indexRows serde insert stopWhenFull count bytes rows).Returns index n index' := by
  induction rows generalizing count bytes index with
  | nil => exact ⟨count, index, by simp [indexRows]⟩
  | cons row rest ih =>
    simp only [forEach, returns_bind] at h
    obtain ⟨_, middle, hrow, hrest⟩ := h
    obtain ⟨n, index', hloop⟩ := ih (count + 1) (bytes + row.snapshotJson.utf8ByteSize) hrest
    simp only [indexRows, returns_ite, returns_bind, returns_pure]
    by_cases hfull : count > 0 ∧ bytes + row.snapshotJson.utf8ByteSize > MAX_SNAPSHOT_PAGE_BYTES
    · exact ⟨count, index, Or.inl ⟨hfull, rfl, rfl⟩⟩
    · by_cases hstop : stopWhenFull = true ∧
        bytes + row.snapshotJson.utf8ByteSize ≥ MAX_SNAPSHOT_PAGE_BYTES
      · exact ⟨count + 1, middle, Or.inr ⟨hfull, (), middle, hrow, Or.inl ⟨hstop, rfl, rfl⟩⟩⟩
      · exact ⟨n, index', Or.inr ⟨hfull, (), middle, hrow, Or.inr ⟨hstop, hloop⟩⟩⟩

end Chunk

end Rvx.Engine
