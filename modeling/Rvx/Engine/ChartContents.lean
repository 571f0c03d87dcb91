import Rvx.Engine.Discovery
import Rvx.Engine.Heads

/-!
# What a chart index says about the stored rows

An index built from a list of rows holds, for each of their observations, the numbers at the paths
indexed by then, the logical axes, and a list of skipped subtrees that contains every other number.
Ingestion and rebuilds only ever append rows of newer snapshots, so these facts stay.
-/

namespace Rvx.Engine

open Core

/-! ## The start of a run -/

theorem min?_concat (values : List ℤ) (value : ℤ) :
    (values ++ [value]).min? = some (values.min?.elim value fun old ↦ min old value) := by
  cases values with
  | nil => rfl
  | cons first rest =>
    rw [List.cons_append, List.min?_cons', List.min?_cons', List.foldl_append]
    rfl

/-- The stored observations of a run. -/
def runObservations (serde : Serde) (run : String) (rows : List SnapshotRow) : List SnapshotRow :=
  rows.filter fun row ↦ row.runId = run ∧ serde.isObservation row.snapshotJson

/-- When the first observation of a run was made. -/
def firstObserved (serde : Serde) (run : String) (rows : List SnapshotRow) : Option ℤ :=
  ((runObservations serde run rows).map SnapshotRow.observedAtNs).min?

theorem firstObserved_concat (serde : Serde) (run : String) (rows : List SnapshotRow)
    (row : SnapshotRow) :
    firstObserved serde run (rows ++ [row]) =
      if row.runId = run ∧ serde.isObservation row.snapshotJson then
        some ((firstObserved serde run rows).elim row.observedAtNs
          fun old ↦ min old row.observedAtNs)
      else firstObserved serde run rows := by
  unfold firstObserved runObservations
  rw [List.filter_append, List.map_append]
  split_ifs with hmatch
  · rw [List.filter_singleton, decide_eq_true hmatch, cond_true, List.map_singleton, min?_concat]
  · rw [List.filter_singleton, decide_eq_false hmatch, cond_false, List.map_nil, List.append_nil]

namespace ChartIndex

/-- Counting an observation moves the start of its run only. -/
theorem firstObserved_countRun (run run' : String) (observed : ℤ) (truncated : Bool)
    (chart : ChartIndex) :
    (Table.lookup RunRow.runId run' (chart.countRun run observed truncated).runs).map
        RunRow.firstObservedAtNs =
      if run = run' then
        some (((Table.lookup RunRow.runId run' chart.runs).map RunRow.firstObservedAtNs).elim
          observed fun old ↦ min old observed)
      else (Table.lookup RunRow.runId run' chart.runs).map RunRow.firstObservedAtNs := by
  unfold countRun
  dsimp only
  split_ifs with hrun
  · subst hrun
    refine (congrArg (Option.map RunRow.firstObservedAtNs)
      (Table.lookup_upsert_self RunRow.runId _ ⟨run, 1, observed, observed, truncated⟩ chart.runs
        ?_)).trans ?_
    · exact fun _ h ↦ h
    · cases Table.lookup RunRow.runId run chart.runs <;> rfl
  · refine congrArg _ (Table.lookup_upsert_of_ne RunRow.runId _ _ chart.runs ?_ (Ne.symm hrun))
    exact fun _ h ↦ h

/-! ## One observation -/

/-- A path is indexed for the source of a row, since the row itself or since an earlier one. -/
def Indexes (chart : ChartIndex) (row : SnapshotRow) (path : String) : Prop :=
  ∃ field ∈ chart.fields, fieldTable.key field = (row.runId, row.sourceId, path) ∧
    field.firstSnapshotId ≤ row.id

/-- What the tables hold about one observation. -/
structure Describes (chart : ChartIndex) (row : SnapshotRow) (snapshot : StateSnapshot) :
    Prop where
  values : ∀ path value, ⟨row.id, path, value⟩ ∈ chart.values ↔
    chart.Indexes row path ∧ (snapshot.state.value.pointer path).bind Value.asF64 = some value
  axes : ∀ name value, ⟨row.id, name, value⟩ ∈ chart.axes ↔ (name, value) ∈ logicalAxes snapshot
  observed : row.id ∈ chart.observations.map ObservationRow.snapshotId
  excluded : ∀ observation ∈ chart.observations, observation.snapshotId = row.id →
    ∃ roots, observation.exclusionsJson = encodePaths roots ∧
      ∀ path number, validateSnapshotPointer path = .ok () →
        snapshot.state.value.pointer path = some (.number number) →
        chart.Indexes row path ∨ ∃ root ∈ roots, Below root path

variable {chart : ChartIndex} {row : SnapshotRow} {snapshot : StateSnapshot}

section Add

variable {id : ℕ} {run source : String} {other : StateSnapshot}

/-- Fields indexed by a later snapshot do not count for an earlier row. -/
theorem indexes_add (hlt : row.id < id) (path : String) :
    (chart.add id run source other).Indexes row path ↔ chart.Indexes row path := by
  unfold Indexes add
  split_ifs
  · rfl
  · constructor
    · rintro ⟨field, hfield, hkey, hle⟩
      cases List.mem_append.mp hfield with
      | inl hold => exact ⟨field, hold, hkey, hle⟩
      | inr hnew =>
        obtain ⟨_, -, rfl⟩ := List.mem_map.mp hnew
        exact absurd hle (Nat.not_le.mpr hlt)
    · rintro ⟨field, hfield, hkey, hle⟩
      exact ⟨field, List.mem_append_left _ hfield, hkey, hle⟩

/-- Rows of other snapshots leave the description of an observation alone. -/
theorem Describes.add (h : chart.Describes row snapshot) (hlt : row.id < id) :
    (chart.add id run source other).Describes row snapshot := by
  have hindexes (path : String) :
      (chart.add id run source other).Indexes row path ↔ chart.Indexes row path :=
    indexes_add hlt path
  refine ⟨fun path value ↦ ?_, fun name value ↦ ?_, ?_, fun observation hmem hid ↦ ?_⟩
  · rw [hindexes, ← h.values]
    unfold ChartIndex.add
    split_ifs
    · rfl
    · refine List.mem_append.trans (or_iff_left fun hnew ↦ ?_)
      exact absurd (mem_valueRows.mp hnew).1 hlt.ne
  · rw [← h.axes]
    unfold ChartIndex.add
    split_ifs
    · rfl
    · refine List.mem_append.trans (or_iff_left fun hnew ↦ ?_)
      obtain ⟨axis, -, heq⟩ := List.mem_map.mp hnew
      exact hlt.ne (AxisRow.mk.inj heq).1.symm
  · unfold ChartIndex.add
    split_ifs
    · exact h.observed
    · rw [List.map_append]
      exact List.mem_append_left _ h.observed
  · have hold : observation ∈ chart.observations := by
      unfold ChartIndex.add at hmem
      split_ifs at hmem
      · exact hmem
      · refine (List.mem_append.mp hmem).resolve_right fun hnew ↦ ?_
        rw [List.mem_singleton.mp hnew] at hid
        exact hlt.ne hid.symm
    obtain ⟨roots, hroots, hcovers⟩ := h.excluded observation hold hid
    refine ⟨roots, hroots, fun path number hpath hnumber ↦ ?_⟩
    rw [hindexes]
    exact hcovers path number hpath hnumber

end Add

/-- The paths known after a snapshot was inserted are those indexed for its row. -/
theorem indexes_add_self (hfields : ∀ field ∈ chart.fields, field.firstSnapshotId < row.id)
    (hevent : snapshot.isEvent = false) (path : String) :
    (chart.add row.id row.runId row.sourceId snapshot).Indexes row path ↔
      path ∈ (chart.fieldsOf row.runId row.sourceId snapshot).known := by
  have hknown := (admitFields_extends snapshot.state.value
    (chart.knownPaths row.runId row.sourceId)).known_iff path
  rw [fieldsOf, hknown, mem_knownPaths]
  unfold Indexes add
  rw [hevent, if_neg (by simp)]
  constructor
  · rintro ⟨field, hfield, hkey, -⟩
    obtain ⟨hrun, hsource, hpath⟩ : field.runId = row.runId ∧ field.sourceId = row.sourceId ∧
        field.path = path := by simpa [fieldTable] using hkey
    cases List.mem_append.mp hfield with
    | inl hold => exact Or.inl ⟨field, hold, hrun, hsource, hpath⟩
    | inr hnew =>
      obtain ⟨other, hother, rfl⟩ := List.mem_map.mp hnew
      exact Or.inr (hpath ▸ hother)
  · rintro (⟨field, hold, hrun, hsource, hpath⟩ | hnew)
    · exact ⟨field, List.mem_append_left _ hold, by simp [fieldTable, hrun, hsource, hpath],
        (hfields field hold).le⟩
    · exact ⟨⟨row.runId, row.sourceId, path, row.id⟩,
        List.mem_append_right _ (List.mem_map.mpr ⟨path, hnew, rfl⟩), rfl, le_rfl⟩

/-- Inserting an observation describes it. -/
theorem describes_add (hvalid : snapshot.Valid) (hevent : snapshot.isEvent = false)
    (hbefore : chart.Before row.id)
    (hfields : ∀ field ∈ chart.fields, field.firstSnapshotId < row.id) :
    (chart.add row.id row.runId row.sourceId snapshot).Describes row snapshot := by
  have hindexes (path : String) :
      (chart.add row.id row.runId row.sourceId snapshot).Indexes row path ↔
        path ∈ (chart.fieldsOf row.runId row.sourceId snapshot).known :=
    indexes_add_self hfields hevent path
  refine ⟨fun path value ↦ ?_, fun name value ↦ ?_, ?_, fun observation hmem hid ↦ ?_⟩
  · rw [hindexes]
    unfold add
    rw [hevent, if_neg (by simp)]
    dsimp only
    rw [List.mem_append, mem_valueRows]
    constructor
    · rintro (hold | ⟨-, hvalue⟩)
      · exact absurd (hbefore.values _ hold) (lt_irrefl _)
      · exact hvalue
    · exact fun hvalue ↦ Or.inr ⟨rfl, hvalue⟩
  · unfold add
    rw [hevent, if_neg (by simp)]
    dsimp only
    rw [List.mem_append]
    constructor
    · rintro (hold | hnew)
      · exact absurd (hbefore.axes _ hold) (lt_irrefl _)
      · obtain ⟨axis, haxis, heq⟩ := List.mem_map.mp hnew
        obtain ⟨-, rfl, rfl⟩ := AxisRow.mk.inj heq
        exact haxis
    · exact fun haxis ↦ Or.inr (List.mem_map.mpr ⟨(name, value), haxis, rfl⟩)
  · unfold add
    rw [hevent, if_neg (by simp)]
    simp [observationOf]
  · have hnew : observation = chart.observationOf row.id row.runId row.sourceId snapshot := by
      unfold add at hmem
      rw [hevent, if_neg (by simp)] at hmem
      cases List.mem_append.mp hmem with
      | inl hold => exact absurd hid (hbefore.observations _ hold).ne
      | inr hnew => exact List.mem_singleton.mp hnew
    obtain ⟨roots, hroots, hcollapse⟩ := collapseExclusions_covers
      (chart.fieldsOf row.runId row.sourceId snapshot).exclusions
    refine ⟨roots, ?_, fun path number hpath hnumber ↦ ?_⟩
    · rw [hnew]
      exact hroots
    · rw [hindexes]
      have hfinite : number.asF64.isSome := by
        cases hvalid.finite.pointer hnumber with
        | number finite => exact finite
      rcases admitFields_covers hpath hfinite hnumber with hknown | ⟨root, hroot, hbelow⟩
      · exact Or.inl hknown
      · exact Or.inr (hcollapse path root hpath hroot hbelow)

end ChartIndex

/-! ## All observations -/

/-- What the chart tables hold about a list of stored rows. -/
structure ChartContents (serde : Serde) (rows : List SnapshotRow) (chart : ChartIndex) : Prop where
  before : ∀ id, (∀ row ∈ rows, row.id < id) →
    chart.Before id ∧ ∀ field ∈ chart.fields, field.firstSnapshotId < id
  fields_nodup : (chart.fields.map ChartIndex.fieldTable.key).Nodup
  described : ∀ row ∈ rows, ∀ snapshot, WrittenFrom row snapshot → snapshot.isEvent = false →
    chart.Describes row snapshot
  runs : ∀ run, (Table.lookup RunRow.runId run chart.runs).map RunRow.firstObservedAtNs =
    firstObserved serde run rows

theorem WrittenFrom.unique {row : SnapshotRow} {snapshot snapshot' : StateSnapshot}
    (h : WrittenFrom row snapshot) (h' : WrittenFrom row snapshot') : snapshot = snapshot' :=
  StateSnapshot.encode_injective (h.json.symm.trans h'.json)

/-- The insertion of one more row. -/
theorem ChartContents.add {serde : Serde} (hserde : serde.RoundTrip) {rows : List SnapshotRow}
    {chart : ChartIndex} (h : ChartContents serde rows chart) {row : SnapshotRow}
    {snapshot : StateSnapshot} (hwritten : WrittenFrom row snapshot)
    (hlast : ∀ old ∈ rows, old.id < row.id) :
    ChartContents serde (rows ++ [row]) (chart.add row.id row.runId row.sourceId snapshot) := by
  obtain ⟨hbefore, hfields⟩ := h.before row.id hlast
  refine ⟨fun id hid ↦ ?_, ?_, fun old hold previous hprevious hevent ↦ ?_, fun run ↦ ?_⟩
  · have hnext : row.id + 1 ≤ id := hid row (by simp)
    refine ⟨(ChartIndex.before_add hbefore).mono hnext, fun field hfield ↦ ?_⟩
    unfold ChartIndex.add at hfield
    split_ifs at hfield
    · exact (hfields field hfield).trans hnext
    · cases List.mem_append.mp hfield with
      | inl hold => exact (hfields field hold).trans hnext
      | inr hnew =>
        obtain ⟨path, -, rfl⟩ := List.mem_map.mp hnew
        exact hnext
  · have hextends := admitFields_extends snapshot.state.value
      (chart.knownPaths row.runId row.sourceId)
    unfold ChartIndex.add
    split_ifs
    · exact h.fields_nodup
    · dsimp only
      rw [List.map_append, List.nodup_append, List.map_map]
      refine ⟨h.fields_nodup, ?_, ?_⟩
      · refine hextends.nodup.map fun left right heq ↦ ?_
        simpa [ChartIndex.fieldTable] using heq
      · intro key hkey key' hkey' heq
        obtain ⟨field, hfield, rfl⟩ := List.mem_map.mp hkey
        obtain ⟨path, hpath, rfl⟩ := List.mem_map.mp hkey'
        simp only [ChartIndex.fieldTable, Function.comp_apply, Prod.mk.injEq] at heq
        exact hextends.fresh path hpath (ChartIndex.mem_knownPaths.mpr ⟨field, hfield, heq⟩)
  · cases List.mem_append.mp hold with
    | inl hbefore => exact (h.described old hbefore previous hprevious hevent).add (hlast old hbefore)
    | inr hnew =>
      obtain rfl := List.mem_singleton.mp hnew
      obtain rfl := hwritten.unique hprevious
      exact ChartIndex.describes_add hwritten.valid hevent hbefore hfields
  · have hkind : serde.isObservation row.snapshotJson = !snapshot.isEvent := by
      rw [hwritten.json]
      exact isObservation_encode hserde hwritten.valid
    rw [firstObserved_concat, hkind]
    unfold ChartIndex.add
    cases hevent : snapshot.isEvent with
    | true =>
      rw [if_pos rfl, if_neg (by simp)]
      exact h.runs run
    | false =>
      rw [if_neg (by simp)]
      dsimp only
      rw [ChartIndex.firstObserved_countRun, h.runs run, hwritten.observed]
      simp

/-- A complete index holds what its rows say. -/
theorem chartContents_of_built {serde : Serde} (hserde : serde.RoundTrip)
    {rows : List SnapshotRow} {chart : ChartIndex} (hrows : ∀ row ∈ rows, Written row)
    (hascending : (rows.map SnapshotRow.id).Pairwise (· < ·))
    (h : (chartProjection serde).Built rows chart) : ChartContents serde rows chart := by
  induction rows using List.reverseRecOn generalizing chart with
  | nil =>
    rw [Projection.built_nil.mp h]
    exact ⟨fun id _ ↦ ⟨(chartProjection_total hserde).fresh_empty id, by
      simp [chartProjection, ChartIndex.empty]⟩, List.nodup_nil, by simp, fun run ↦ rfl⟩
  | append_singleton rows row ih =>
    obtain ⟨middle, hmiddle, hrow⟩ := Projection.built_concat.mp h
    obtain ⟨snapshot, hdecode, hrun⟩ := indexRow_returns.mp hrow
    obtain ⟨written, hwritten⟩ := hrows row (by simp)
    obtain rfl : written = snapshot := by
      simpa [hwritten.decode hserde] using hdecode
    rw [List.map_append, List.pairwise_append] at hascending
    have hold := ih (fun old hmem ↦ hrows old (List.mem_append_left _ hmem)) hascending.1 hmiddle
    rw [ChartIndex.eq_of_returns_insert hwritten.valid hrun]
    exact hold.add hserde hwritten fun old hmem ↦
      hascending.2.2 old.id (List.mem_map_of_mem hmem) row.id (by simp)

end Rvx.Engine
