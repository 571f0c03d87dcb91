import Rvx.Engine.CatalogReading
import Rvx.Engine.ChartCoverage
import Rvx.Engine.HeadRuns
import Rvx.Engine.Progress

/-!
# The catalog of an open store

Exact heads and a complete chart index make an exact catalog, as long as no limit was reached.  A
head that points at an event leaves its source without values, so the catalog needs the condition
that keeps heads exact.
-/

namespace Rvx.Engine

open Core Check StableSort Database

variable {serde : Serde}

/-! ## What a catalog should say -/

/-- The newest observation of a source. -/
structure Newest (serde : Serde) (rows : List SnapshotRow) (run source : String)
    (row : SnapshotRow) (snapshot : StateSnapshot) : Prop where
  observes : Observes serde rows run source row snapshot
  last : ∀ other previous, Observes serde rows run source other previous → other.id ≤ row.id

/-- The times at which the observations of a run were made. -/
def observedTimes (serde : Serde) (run : String) (rows : List SnapshotRow) : List ℤ :=
  (runObservations serde run rows).map SnapshotRow.observedAtNs

/-- A catalog tells exactly what the observations of the selected runs report. -/
structure CatalogExact (serde : Serde) (rows : List SnapshotRow) (request : ChartCatalogRequest)
    (response : ChartCatalogResponse) : Prop where
  paths_nodup : (response.metrics.map ChartMetric.path).Nodup
  paths : ∀ path, path ∈ response.metrics.map ChartMetric.path ↔
    ∃ run ∈ request.runIds, ∃ source, Reports serde rows run source path
  reporters_nodup : ∀ metric ∈ response.metrics,
    (metric.sources.map fun reporter ↦ (reporter.runId, reporter.sourceId)).Nodup
  reporters : ∀ metric ∈ response.metrics, ∀ run source,
    (∃ reporter ∈ metric.sources, reporter.runId = run ∧ reporter.sourceId = source) ↔
      run ∈ request.runIds ∧ Reports serde rows run source metric.path
  latest : ∀ metric ∈ response.metrics, ∀ reporter ∈ metric.sources, ∃ row snapshot,
    Newest serde rows reporter.runId reporter.sourceId row snapshot ∧
      reporter.latestValue = (snapshot.state.value.pointer metric.path).bind Value.asF64 ∧
      reporter.observedAtNs = row.observedAtNs
  primary : ∀ metric ∈ response.metrics, ∀ reporter ∈ metric.sources, ∀ other ∈ metric.sources,
    reporter.primary = true → other.primary = true → reporter.runId = other.runId →
      reporter = other
  runs : response.runs = (OrderedSet.ofList request.runIds).keys.map fun run ↦
    ⟨run, (observedTimes serde run rows).length, (observedTimes serde run rows).min?,
      (observedTimes serde run rows).max?⟩

/-! ## Newest observations -/

theorem isObservation_iff {text : String} : serde.isObservation text = true ↔
    ∃ snapshot, serde.snapshot text = some snapshot ∧ snapshot.isEvent = false := by
  rw [Serde.isObservation, Option.any_eq_true]
  simp

theorem Reports.latest {rows : List SnapshotRow} {run source path : String}
    (h : Reports serde rows run source path) :
    ∃ row snapshot, Newest serde rows run source row snapshot ∧
      latestObservation serde run source rows = some row.id := by
  obtain ⟨old, previous, hobserves, -⟩ := h
  have hselected (row : SnapshotRow) (snapshot : StateSnapshot)
      (hrow : Observes serde rows run source row snapshot) :
      row.id ∈ ((rows.filter fun row ↦ row.runId = run ∧ row.sourceId = source ∧
        serde.isObservation row.snapshotJson).map SnapshotRow.id) := by
    refine List.mem_map_of_mem (List.mem_filter.mpr ⟨hrow.stored, decide_eq_true ?_⟩)
    exact ⟨hrow.run_eq, hrow.source_eq, isObservation_iff.mpr ⟨snapshot, hrow.decoded, hrow.observation⟩⟩
  cases hmax : latestObservation serde run source rows with
  | none =>
    have hnil := List.max?_eq_none_iff.mp hmax
    have hmem := hselected old previous hobserves
    rw [hnil] at hmem
    cases hmem
  | some id =>
    obtain ⟨hmem, hle⟩ := List.max?_eq_some_iff.mp hmax
    obtain ⟨row, hrow, rfl⟩ := List.mem_map.mp hmem
    rw [List.mem_filter, decide_eq_true_eq] at hrow
    obtain ⟨hstored, hrun, hsource, hkind⟩ := hrow
    obtain ⟨snapshot, hdecode, hevent⟩ := isObservation_iff.mp hkind
    exact ⟨row, snapshot, ⟨⟨hstored, hrun, hsource, hdecode, hevent⟩,
      fun other previous hother ↦ hle other.id (hselected other previous hother)⟩, rfl⟩

/-! ## The rows of the catalog -/

/-- What is known of the tables of an open store. -/
structure CatalogTables.Exact (serde : Serde) (tables : CatalogTables) : Prop where
  contents : ChartContents serde tables.snapshots tables.chart
  coverage : ChartCoverage serde tables.snapshots tables.chart
  written : ∀ row ∈ tables.snapshots, Written row
  ids : (tables.snapshots.map SnapshotRow.id).Nodup
  heads : ∀ run source, (Table.lookup headKey (run, source) tables.heads).map HeadRow.snapshotId =
    latestObservation serde run source tables.snapshots

namespace CatalogTables.Exact

variable {tables : CatalogTables}

theorem reports (h : tables.Exact serde) {field : FieldRow} (hfield : field ∈ tables.chart.fields) :
    Reports serde tables.snapshots field.runId field.sourceId field.path := by
  obtain ⟨row, snapshot, hobserves, -, hvalue⟩ := h.coverage.sound field hfield
  exact ⟨row, snapshot, hobserves, hvalue⟩

/-- The number indexed for the newest observation is the one at the path. -/
theorem value (h : tables.Exact serde) (hserde : serde.RoundTrip) {field : FieldRow}
    (hfield : field ∈ tables.chart.fields) {row : SnapshotRow} {snapshot : StateSnapshot}
    (hnewest : Newest serde tables.snapshots field.runId field.sourceId row snapshot) :
    (Table.lookup ChartIndex.valueTable.key (row.id, field.path) tables.chart.values).map
      ValueRow.value = (snapshot.state.value.pointer field.path).bind Value.asF64 := by
  obtain ⟨hobserves, hlast⟩ := hnewest
  obtain ⟨written, hwritten⟩ := h.written row hobserves.stored
  obtain rfl : written = snapshot :=
    Option.some.inj ((hwritten.decode hserde).symm.trans hobserves.decoded)
  have hdescribed := (h.contents.described row hobserves.stored written hwritten
    hobserves.observation).values field.path
  have hindexed : tables.chart.Indexes row field.path := by
    obtain ⟨first, previous, hfirst, hid, -⟩ := h.coverage.sound field hfield
    refine ⟨field, hfield, ?_, hid ▸ hlast first previous hfirst⟩
    rw [hobserves.run_eq, hobserves.source_eq]
    rfl
  cases hlookup : Table.lookup ChartIndex.valueTable.key (row.id, field.path) tables.chart.values with
  | some value =>
    obtain ⟨hmem, hkey⟩ := Table.lookup_some hlookup
    obtain ⟨id, path, number⟩ := value
    obtain ⟨rfl, rfl⟩ := Prod.mk.inj hkey
    exact ((hdescribed number).mp hmem).2.symm
  | none =>
    cases hnumber : (written.state.value.pointer field.path).bind Value.asF64 with
    | none => rfl
    | some number =>
      have hmem := (hdescribed number).mpr ⟨hindexed, hnumber⟩
      exact absurd rfl (Table.lookup_eq_none.mp hlookup _ hmem)

/-- Every field has one row, and it is about the newest observation of the source. -/
theorem catalogRow (h : tables.Exact serde) (hserde : serde.RoundTrip) {field : FieldRow}
    (hfield : field ∈ tables.chart.fields) :
    ∃ row snapshot, Newest serde tables.snapshots field.runId field.sourceId row snapshot ∧
      tables.catalogRow field = some ⟨field.path, field.sourceId,
        (snapshot.state.value.pointer field.path).bind Value.asF64, row.observedAtNs⟩ := by
  obtain ⟨row, snapshot, hnewest, hlatest⟩ := (h.reports hfield).latest
  refine ⟨row, snapshot, hnewest, ?_⟩
  have hhead := h.heads field.runId field.sourceId
  rw [hlatest] at hhead
  obtain ⟨head, hhead, hid⟩ := Option.map_eq_some_iff.mp hhead
  have hrow := Table.lookup_eq_some_of_mem h.ids hnewest.observes.stored
  unfold CatalogTables.catalogRow
  rw [hhead, Option.bind_eq_bind, Option.bind_some, hid, hrow, ← h.value hserde hfield hnewest]
  rfl

/-- The rows of a run are those of its fields. -/
theorem mem_allRows (h : tables.Exact serde) (hserde : serde.RoundTrip) {run : String}
    {listed : CatalogRow} (hlisted : listed ∈ tables.allRows run) :
    Reports serde tables.snapshots run listed.sourceId listed.path ∧
      listed.sourceId ∈ tables.fieldSources run listed.path ∧
      ∃ row snapshot, Newest serde tables.snapshots run listed.sourceId row snapshot ∧
        listed.value = (snapshot.state.value.pointer listed.path).bind Value.asF64 ∧
        listed.observedAtNs = row.observedAtNs := by
  rw [CatalogTables.allRows, mem_sortOn, CatalogTables.joinedRows, List.mem_filterMap] at hlisted
  obtain ⟨field, hfield, hrow⟩ := hlisted
  rw [List.mem_filter, decide_eq_true_eq] at hfield
  obtain ⟨hfield, rfl⟩ := hfield
  obtain ⟨row, snapshot, hnewest, hcatalog⟩ := h.catalogRow hserde hfield
  obtain rfl := Option.some.inj (hcatalog.symm.trans hrow)
  refine ⟨h.reports hfield, ?_, row, snapshot, hnewest, rfl, rfl⟩
  exact List.mem_map.mpr ⟨field, List.mem_filter.mpr ⟨hfield, by simp⟩, rfl⟩

/-- Every field that is reported has a row, if nothing of the run was skipped. -/
theorem row_of_reports (h : tables.Exact serde) (hserde : serde.RoundTrip)
    {run source path : String} (hwhole : tables.runTruncated run = false)
    (hreports : Reports serde tables.snapshots run source path) :
    ∃ listed ∈ tables.allRows run, listed.sourceId = source ∧ listed.path = path := by
  cases h.coverage.complete run source path hreports with
  | inl hlists =>
    obtain ⟨field, hfield, hkey⟩ := hlists
    obtain ⟨row, snapshot, -, hcatalog⟩ := h.catalogRow hserde hfield
    simp only [ChartIndex.fieldTable, Prod.mk.injEq] at hkey
    obtain ⟨rfl, rfl, rfl⟩ := hkey
    have hmem {listed : CatalogRow} (hlisted : tables.catalogRow field = some listed) :
        listed ∈ tables.allRows field.runId := by
      rw [CatalogTables.allRows, mem_sortOn, CatalogTables.joinedRows, List.mem_filterMap]
      exact ⟨field, List.mem_filter.mpr ⟨hfield, by simp⟩, hlisted⟩
    exact ⟨_, hmem hcatalog, rfl, rfl⟩
  | inr hskips =>
    obtain ⟨row, hlookup, htruncated⟩ := hskips
    obtain ⟨hrow, hrun⟩ := Table.lookup_some hlookup
    rw [CatalogTables.runTruncated, List.any_eq_false] at hwhole
    exact absurd (by simp [hrun, htruncated]) (hwhole row hrow)

/-- A run has one row for a field. -/
theorem nodup_allRows (h : tables.Exact serde) (run : String) :
    ((tables.allRows run).map fun row ↦ (row.path, row.sourceId)).Nodup := by
  have hperm := (perm_sortOn (fun row : CatalogRow ↦ toLex (row.path, row.sourceId))
    (tables.joinedRows run)).map fun row ↦ (row.path, row.sourceId)
  refine hperm.nodup_iff.mpr ?_
  have hread (field : FieldRow) (row : CatalogRow) (hrow : tables.catalogRow field = some row) :
      row.path = field.path ∧ row.sourceId = field.sourceId := by
    simp only [CatalogTables.catalogRow, Option.bind_eq_bind, Option.bind_eq_some_iff,
      Option.pure_def, Option.some.injEq] at hrow
    obtain ⟨head, -, old, -, rfl⟩ := hrow
    exact ⟨rfl, rfl⟩
  have hkeys := List.pairwise_map.mp h.contents.fields_nodup
  have hrun := hkeys.filter fun field ↦ decide (field.runId = run)
  refine List.pairwise_map.mpr (List.pairwise_filterMap.mpr (hrun.imp_of_mem ?_))
  intro field other hfield hother hne row hrow row' hrow' heq
  obtain ⟨hpath, hsource⟩ := hread field row hrow
  obtain ⟨hpath', hsource'⟩ := hread other row' hrow'
  obtain ⟨hsamePath, hsameSource⟩ := Prod.mk.inj heq
  have hfieldRun := of_decide_eq_true (List.mem_filter.mp hfield).2
  have hotherRun := of_decide_eq_true (List.mem_filter.mp hother).2
  refine hne ?_
  simp only [ChartIndex.fieldTable, Prod.mk.injEq]
  exact ⟨hfieldRun.trans hotherRun.symm, by rw [← hsource, hsameSource, hsource'],
    by rw [← hpath, hsamePath, hpath']⟩

/-- Distinct runs have distinct rows. -/
theorem nodup_runRows (h : tables.Exact serde) {runs : List String} (hruns : runs.Nodup) :
    ((tables.runRows runs).map fun row ↦ (row.2.path, row.1, row.2.sourceId)).Nodup := by
  unfold CatalogTables.runRows
  rw [List.map_flatMap, List.nodup_flatMap]
  refine ⟨fun run _ ↦ ?_, hruns.imp fun {run other} hne ↦ ?_⟩
  · rw [List.map_map]
    have hpairs := (h.nodup_allRows run).map (f := fun key ↦ (key.1, run, key.2)) ?_
    · rwa [List.map_map] at hpairs
    · intro left right heq
      simp only [Prod.mk.injEq, true_and] at heq
      exact Prod.ext heq.1 heq.2
  · intro key hkey hkey'
    simp only [List.map_map, List.mem_map, Function.comp_apply] at hkey hkey'
    obtain ⟨row, -, rfl⟩ := hkey
    obtain ⟨row', -, heq⟩ := hkey'
    simp only [Prod.mk.injEq] at heq
    exact hne heq.2.1.symm

/-- The row of a run describes its observations. -/
theorem runInfo (h : tables.Exact serde) (run : String) :
    tables.runInfo run = ⟨run, (observedTimes serde run tables.snapshots).length,
      (observedTimes serde run tables.snapshots).min?,
      (observedTimes serde run tables.snapshots).max?⟩ := by
  have hcounts := h.coverage.counts run
  unfold CatalogTables.runInfo observedTimes
  cases hlookup : Table.lookup RunRow.runId run tables.chart.runs with
  | none =>
    rw [hlookup] at hcounts
    have hnil : (runObservations serde run tables.snapshots).map SnapshotRow.observedAtNs = [] :=
      hcounts
    rw [hnil]
    rfl
  | some row =>
    rw [hlookup] at hcounts
    obtain ⟨hcount, hfirst, hlast⟩ := hcounts
    rw [hfirst, hlast, ← hcount]

end CatalogTables.Exact

/-! ## The answer -/

theorem chartCatalog_ok {display : ChartDisplay} {request : ChartCatalogRequest}
    {sources : List ChartSource} {tables : CatalogTables} {response : ChartCatalogResponse}
    (h : chartCatalog display request sources tables = .ok response) :
    ∃ read, (OrderedSet.ofList request.runIds).keys.foldlM
        (readRun display (sourceMap sources) tables) CatalogRead.empty = .ok read ∧
      response.runs = read.runs ∧ response.truncated = read.truncated ∧
      response.metrics = read.metrics.entries.map fun entry ↦
        markPrimary tables (sourceMap sources) entry.2 := by
  simp only [chartCatalog, bind_eq_ok, exists_unit, reject_ok, pure_eq_ok] at h
  obtain ⟨read, hread, -, rfl⟩ := h
  exact ⟨read, hread, rfl, rfl, rfl⟩

section Answer

variable {tables : CatalogTables} {sources : OrderedMap String ChartSource} {runs : List String}
  {entries : List (String × ChartMetricSource)}

/-- The reporters that were read stand for the rows of the runs. -/
def StandFor (tables : CatalogTables) (sources : OrderedMap String ChartSource)
    (runs : List String) (entries : List (String × ChartMetricSource)) : Prop :=
  entries.map shown =
    (tables.runRows runs).map fun row ↦ (row.1, row.2, isMarked sources row.2.sourceId)

theorem mem_runRows {run : String} {listed : CatalogRow} :
    (run, listed) ∈ tables.runRows runs ↔ run ∈ runs ∧ listed ∈ tables.allRows run := by
  simp [CatalogTables.runRows]

/-- A reporter stands for a row. -/
theorem StandFor.row (h : StandFor tables sources runs entries) {path : String}
    {reporter : ChartMetricSource} (hentry : (path, reporter) ∈ entries) :
    reporter.runId ∈ runs ∧
      ⟨path, reporter.sourceId, reporter.latestValue, reporter.observedAtNs⟩ ∈
        tables.allRows reporter.runId ∧
      reporter.primary = isMarked sources reporter.sourceId := by
  have hshown := List.mem_map_of_mem (f := shown) hentry
  rw [h] at hshown
  obtain ⟨⟨run, listed⟩, hrow, heq⟩ := List.mem_map.mp hshown
  obtain ⟨rfl, rfl, hprimary⟩ : run = reporter.runId ∧
      listed = ⟨path, reporter.sourceId, reporter.latestValue, reporter.observedAtNs⟩ ∧
      isMarked sources listed.sourceId = reporter.primary := by
    simpa [shown] using heq
  obtain ⟨hrun, hlisted⟩ := mem_runRows.mp hrow
  exact ⟨hrun, hlisted, hprimary.symm⟩

/-- Every row has a reporter. -/
theorem StandFor.reporter (h : StandFor tables sources runs entries) {run : String}
    {listed : CatalogRow} (hrun : run ∈ runs) (hlisted : listed ∈ tables.allRows run) :
    ∃ reporter, (listed.path, reporter) ∈ entries ∧ reporter.runId = run ∧
      reporter.sourceId = listed.sourceId := by
  have hrow := List.mem_map_of_mem
    (f := fun row : String × CatalogRow ↦ (row.1, row.2, isMarked sources row.2.sourceId))
    (mem_runRows.mpr ⟨hrun, hlisted⟩)
  rw [← h] at hrow
  obtain ⟨⟨path, reporter⟩, hentry, heq⟩ := List.mem_map.mp hrow
  obtain ⟨rfl, rfl, -⟩ : reporter.runId = run ∧
      (⟨path, reporter.sourceId, reporter.latestValue, reporter.observedAtNs⟩ : CatalogRow) =
        listed ∧ reporter.primary = isMarked sources listed.sourceId := by
    simpa [shown] using heq
  exact ⟨reporter, hentry, rfl, rfl⟩

/-- A path has one reporter for a run and source. -/
theorem StandFor.nodup (h : StandFor tables sources runs entries) (htables : tables.Exact serde)
    (hruns : runs.Nodup) (path : String) :
    ((reportersAt path entries).map fun reporter ↦ (reporter.runId, reporter.sourceId)).Nodup := by
  have hkeys : (entries.map fun entry ↦ (entry.1, entry.2.runId, entry.2.sourceId)).Nodup := by
    have hsame : (entries.map fun entry ↦ (entry.1, entry.2.runId, entry.2.sourceId)) =
        (tables.runRows runs).map fun row ↦ (row.2.path, row.1, row.2.sourceId) := by
      calc
        (entries.map fun entry ↦ (entry.1, entry.2.runId, entry.2.sourceId)) =
            (entries.map shown).map fun row ↦ (row.2.1.path, row.1, row.2.1.sourceId) := by
          rw [List.map_map]
          rfl
        _ = (tables.runRows runs).map fun row ↦ (row.2.path, row.1, row.2.sourceId) := by
          rw [h, List.map_map]
          rfl
    rw [hsame]
    exact htables.nodup_runRows hruns
  unfold reportersAt
  rw [List.map_map]
  refine List.pairwise_map.mpr (((List.pairwise_map.mp hkeys).filter _).imp_of_mem ?_)
  intro entry other hentry hother hne heq
  have hpath := of_decide_eq_true (List.mem_filter.mp hentry).2
  have hpath' := of_decide_eq_true (List.mem_filter.mp hother).2
  obtain ⟨hrun, hsource⟩ := Prod.mk.inj heq
  exact hne (Prod.ext (hpath.trans hpath'.symm) (Prod.ext hrun hsource))

/-- The metrics of an answer are made of the reporters that were read. -/
structure Assembled (tables : CatalogTables) (sources : OrderedMap String ChartSource)
    (runs : List String) (entries : List (String × ChartMetricSource))
    (metrics : List ChartMetric) : Prop where
  stand : StandFor tables sources runs entries
  paths_nodup : (metrics.map ChartMetric.path).Nodup
  listed : ∀ path, path ∈ metrics.map ChartMetric.path ↔ ∃ entry ∈ entries, entry.1 = path
  sources_eq : ∀ metric ∈ metrics, metric.sources =
    (reportersAt metric.path entries).map (primaryAt tables sources metric.path)

variable {metrics : List ChartMetric}

theorem CatalogRead.Holds.assembled {read : CatalogRead} (hholds : read.Holds entries)
    (hstand : StandFor tables sources runs entries) :
    Assembled tables sources runs entries
      (read.metrics.entries.map fun entry ↦ markPrimary tables sources entry.2) := by
  have hmarked (entry : String × ChartMetric) (hentry : entry ∈ read.metrics.entries) :=
    (hholds.collects entry.1 entry.2 (OrderedMap.get?_eq_some.mpr hentry)).markPrimary tables sources
  have hpaths : (read.metrics.entries.map fun entry ↦ markPrimary tables sources entry.2).map
      ChartMetric.path = read.metrics.keys := by
    rw [List.map_map]
    exact List.map_congr_left fun entry hentry ↦ (hmarked entry hentry).1
  refine ⟨hstand, ?_, fun path ↦ ?_, fun metric hmetric ↦ ?_⟩
  · rw [hpaths]
    exact read.metrics.nodup_keys
  · rw [hpaths]
    exact hholds.listed path
  · obtain ⟨entry, hentry, rfl⟩ := List.mem_map.mp hmetric
    rw [(hmarked entry hentry).1]
    exact (hmarked entry hentry).2

namespace Assembled

/-- A reporter of a metric is one that was read, up to its mark. -/
theorem entry (h : Assembled tables sources runs entries metrics) {metric : ChartMetric}
    (hmetric : metric ∈ metrics) {reporter : ChartMetricSource}
    (hreporter : reporter ∈ metric.sources) :
    ∃ original, (metric.path, original) ∈ entries ∧
      reporter = primaryAt tables sources metric.path original := by
  rw [h.sources_eq metric hmetric] at hreporter
  obtain ⟨original, horiginal, rfl⟩ := List.mem_map.mp hreporter
  exact ⟨original, mem_reportersAt.mp horiginal, rfl⟩

/-- The pairs of a metric are distinct. -/
theorem nodup (h : Assembled tables sources runs entries metrics) (htables : tables.Exact serde)
    (hruns : runs.Nodup) {metric : ChartMetric} (hmetric : metric ∈ metrics) :
    (metric.sources.map fun reporter ↦ (reporter.runId, reporter.sourceId)).Nodup := by
  rw [h.sources_eq metric hmetric, List.map_map]
  exact h.stand.nodup htables hruns metric.path

variable (hserde : serde.RoundTrip)
include hserde

/-- The metrics are the reported paths. -/
theorem mem_paths (h : Assembled tables sources runs entries metrics) (htables : tables.Exact serde)
    (hwhole : ∀ run ∈ runs, tables.runTruncated run = false) (path : String) :
    path ∈ metrics.map ChartMetric.path ↔
      ∃ run ∈ runs, ∃ source, Reports serde tables.snapshots run source path := by
  rw [h.listed]
  constructor
  · rintro ⟨⟨path, reporter⟩, hentry, rfl⟩
    obtain ⟨hrun, hlisted, -⟩ := h.stand.row hentry
    exact ⟨reporter.runId, hrun, reporter.sourceId, (htables.mem_allRows hserde hlisted).1⟩
  · rintro ⟨run, hrun, source, hreports⟩
    obtain ⟨listed, hlisted, rfl, rfl⟩ := htables.row_of_reports hserde (hwhole run hrun) hreports
    obtain ⟨reporter, hentry, -⟩ := h.stand.reporter hrun hlisted
    exact ⟨_, hentry, rfl⟩

/-- The reporters of a metric are the pairs that report its path. -/
theorem mem_reporters (h : Assembled tables sources runs entries metrics)
    (htables : tables.Exact serde) (hwhole : ∀ run ∈ runs, tables.runTruncated run = false)
    {metric : ChartMetric} (hmetric : metric ∈ metrics) (run source : String) :
    (∃ reporter ∈ metric.sources, reporter.runId = run ∧ reporter.sourceId = source) ↔
      run ∈ runs ∧ Reports serde tables.snapshots run source metric.path := by
  constructor
  · rintro ⟨reporter, hreporter, rfl, rfl⟩
    obtain ⟨original, hentry, rfl⟩ := h.entry hmetric hreporter
    obtain ⟨hrun, hlisted, -⟩ := h.stand.row hentry
    exact ⟨hrun, (htables.mem_allRows hserde hlisted).1⟩
  · rintro ⟨hrun, hreports⟩
    obtain ⟨listed, hlisted, rfl, hpath⟩ :=
      htables.row_of_reports hserde (hwhole run hrun) hreports
    obtain ⟨reporter, hentry, rfl, hsource⟩ := h.stand.reporter hrun hlisted
    rw [hpath] at hentry
    refine ⟨primaryAt tables sources metric.path reporter, ?_, rfl, hsource⟩
    rw [h.sources_eq metric hmetric]
    exact List.mem_map_of_mem (mem_reportersAt.mpr hentry)

/-- A reporter shows the newest observation of its source. -/
theorem latest (h : Assembled tables sources runs entries metrics) (htables : tables.Exact serde)
    {metric : ChartMetric} (hmetric : metric ∈ metrics) {reporter : ChartMetricSource}
    (hreporter : reporter ∈ metric.sources) :
    ∃ row snapshot, Newest serde tables.snapshots reporter.runId reporter.sourceId row snapshot ∧
      reporter.latestValue = (snapshot.state.value.pointer metric.path).bind Value.asF64 ∧
      reporter.observedAtNs = row.observedAtNs := by
  obtain ⟨original, hentry, rfl⟩ := h.entry hmetric hreporter
  obtain ⟨-, hlisted, -⟩ := h.stand.row hentry
  exact (htables.mem_allRows hserde hlisted).2.2

/-- At most one reporter of a run is primary. -/
theorem primary (h : Assembled tables sources runs entries metrics) (htables : tables.Exact serde)
    (hruns : runs.Nodup) {metric : ChartMetric} (hmetric : metric ∈ metrics)
    {reporter other : ChartMetricSource} (hreporter : reporter ∈ metric.sources)
    (hother : other ∈ metric.sources) (hprimary : reporter.primary = true)
    (hprimary' : other.primary = true) (hrun : reporter.runId = other.runId) : reporter = other := by
  refine List.inj_on_of_nodup_map (h.nodup htables hruns hmetric) hreporter hother
    (Prod.ext hrun ?_)
  obtain ⟨original, hentry, rfl⟩ := h.entry hmetric hreporter
  obtain ⟨original', hentry', rfl⟩ := h.entry hmetric hother
  obtain ⟨-, hlisted, hmarked⟩ := h.stand.row hentry
  obtain ⟨-, hlisted', hmarked'⟩ := h.stand.row hentry'
  have hlist := (htables.mem_allRows hserde hlisted).2.1
  have hlist' := (htables.mem_allRows hserde hlisted').2.1
  exact @sourceId_of_primaryAt tables sources metric.path original original' hrun hlist hlist'
    hmarked hmarked' hprimary hprimary'

end Assembled

end Answer

/-- Exact tables make an exact catalog, if nothing was cut. -/
theorem chartCatalog_exact {display : ChartDisplay} {request : ChartCatalogRequest}
    {sources : List ChartSource} {tables : CatalogTables} {response : ChartCatalogResponse}
    (hserde : serde.RoundTrip) (htables : tables.Exact serde)
    (h : chartCatalog display request sources tables = .ok response)
    (hwhole : response.truncated = false) :
    CatalogExact serde tables.snapshots request response := by
  obtain ⟨read, hread, hruns, htruncated, hmetrics⟩ := chartCatalog_ok h
  obtain ⟨entries, hstand, hholds, hinfos, hskipped⟩ :=
    readRuns_holds CatalogRead.holds_empty hread (htruncated.symm.trans hwhole)
  have hassembled := hholds.assembled hstand
  rw [← hmetrics] at hassembled
  have hnodup := (OrderedSet.ofList request.runIds).nodup_keys
  have hkeys (run : String) : run ∈ (OrderedSet.ofList request.runIds).keys ↔
      run ∈ request.runIds := OrderedSet.mem_ofList
  refine ⟨hassembled.paths_nodup, fun path ↦ ?_, fun metric hmetric ↦ ?_,
    fun metric hmetric run source ↦ ?_, fun metric hmetric reporter hreporter ↦ ?_,
    fun metric hmetric reporter hreporter other hother hprimary hprimary' hrun ↦ ?_, ?_⟩
  · rw [hassembled.mem_paths hserde htables hskipped]
    exact exists_congr fun run ↦ and_congr_left fun _ ↦ hkeys run
  · exact hassembled.nodup htables hnodup hmetric
  · rw [hassembled.mem_reporters hserde htables hskipped hmetric, hkeys]
  · exact hassembled.latest hserde htables hmetric hreporter
  · exact hassembled.primary hserde htables hnodup hmetric hreporter hother hprimary hprimary' hrun
  · rw [hruns, hinfos]
    exact List.map_congr_left fun run _ ↦ htables.runInfo run

/-! ## Open stores -/

theorem catalog_ok {display : ChartDisplay} {request : ChartCatalogRequest}
    {sources : List ChartSource} {db : Database} {response : ChartCatalogResponse}
    (h : catalog display request sources db = .ok response) :
    ∃ tables, openedTables db = .ok tables ∧
      chartCatalog display request sources tables = .ok response := by
  simp only [catalog, bind_eq_ok, exists_unit] at h
  exact h.2.2

/-- In a run whose opens are not stopped before a pending repair, every catalog that is not
truncated is exact. -/
theorem Store.catalog_exact (hserde : serde.RoundTrip) {actions : List Action} {store : Store}
    (hquiet : Store.RunsUndisturbed serde actions .init)
    (hrun : Store.init.run serde actions = some store) (hready : store.phase = .ready)
    {display : ChartDisplay} {request : ChartCatalogRequest} {sources : List ChartSource}
    {response : ChartCatalogResponse} (h : catalog display request sources store.db = .ok response)
    (hwhole : response.truncated = false) :
    CatalogExact serde store.db.snapshots request response := by
  have hstore : store.Reachable serde := ⟨actions, hrun⟩
  have hopen := hstore.accepting hserde hready
  obtain ⟨chart, hchart, hbuilt⟩ := hopen.chart
  have hknown := Store.run_headsKnown hserde Store.indexed_init Store.headsKnown_init hquiet hrun
  rw [Store.HeadsKnown, hready] at hknown
  obtain ⟨heads, hheads, -, hexact⟩ := hknown
  obtain ⟨tables, htables, hanswer⟩ := catalog_ok h
  obtain rfl : tables = ⟨chart, heads, store.db.snapshots⟩ := by
    rw [openedTables, hchart, hheads] at htables
    exact (Except.ok.inj htables).symm
  refine chartCatalog_exact hserde ⟨?_, ?_, ?_, ?_, ?_⟩ hanswer hwhole
  · exact chartContents_of_built hserde hopen.rows.written hopen.rows.ids_ascending hbuilt
  · exact chartCoverage_of_built hserde hopen.rows.written hbuilt
  · exact hopen.rows.written
  · exact hopen.rows.ids_ascending.imp fun hlt ↦ hlt.ne
  · exact hexact

/-- How the metric of the samples is shown. -/
def sampleDisplay : ChartDisplay where
  humanize _ := "Learner"
  presentation _ := ("Loss", .training, none)
  defaultPaths metrics := metrics.map ChartMetric.path
  reporterLength _ := 158
  responseLength _ := 435

def sampleChartSource : ChartSource := ⟨"trainer", "learner", none, none, none⟩

/-- An observation with a loss, then an event. -/
def sampleReported : List StateSnapshot := [sampleSnapshot 0 (.literal [("loss", .int 3)]),
  sampleSnapshot 1 sampleEvent]

/-- An older file that was opened without interruption. -/
def sampleReopened : List Action :=
  openNew ++ [.ingestBatch [sampleDelivery 0 none sampleReported], .stop,
    .useOlder ⟨none, none, none⟩, .beginOpen] ++ List.replicate 8 .continueOpen

theorem Store.catalog_exact_sample :
    ∃ store response, Store.init.run (.inverse sampleReported) sampleReopened = some store ∧
      catalog sampleDisplay ⟨["run-1"]⟩ [sampleChartSource] store.db = .ok response ∧
      (response.metrics.map fun metric ↦
        (metric.path, metric.sources.map ChartMetricSource.latestValue)) = [("/loss", [some 3])] ∧
      CatalogExact (.inverse sampleReported) store.db.snapshots ⟨["run-1"]⟩ response := by
  have hphase : (Store.init.run (.inverse sampleReported) sampleReopened).map Store.phase =
      some .ready := by decide +kernel
  have hcatalog : ((Store.init.run (.inverse sampleReported) sampleReopened).bind fun store ↦
      (catalog sampleDisplay ⟨["run-1"]⟩ [sampleChartSource] store.db).toOption.map fun response ↦
        (response.truncated, response.metrics.map fun metric ↦
          (metric.path, metric.sources.map ChartMetricSource.latestValue))) =
      some (false, [("/loss", [some 3])]) := by decide +kernel
  obtain ⟨store, hstore, hready⟩ := Option.map_eq_some_iff.mp hphase
  rw [hstore, Option.bind_some] at hcatalog
  obtain ⟨response, hresponse, hvalues⟩ := Option.map_eq_some_iff.mp hcatalog
  obtain ⟨hwhole, hmetrics⟩ := Prod.mk.inj hvalues
  have hok := toOption_eq_some.mp hresponse
  exact ⟨store, response, hstore, hok, hmetrics,
    Store.catalog_exact (Serde.inverse_roundTrip _) (by decide +kernel) hstore hready hok hwhole⟩

/-- The same file, opened for the first time by an open that is stopped after it reset the index. -/
def sampleCutShort : List Action :=
  openNew ++ [.ingestBatch [sampleDelivery 0 none sampleReported], .stop,
    .useOlder ⟨none, none, none⟩, .beginOpen, .continueOpen, .stop, .beginOpen] ++
      List.replicate 6 .continueOpen

/-- Without the condition a catalog can miss the value of the newest observation. -/
theorem Store.catalog_not_exact :
    ¬ ∀ (serde : Serde) (actions : List Action) (store : Store) (display : ChartDisplay)
      (request : ChartCatalogRequest) (sources : List ChartSource)
      (response : ChartCatalogResponse), serde.RoundTrip →
      Store.init.run serde actions = some store → store.phase = .ready →
      catalog display request sources store.db = .ok response → response.truncated = false →
      CatalogExact serde store.db.snapshots request response := by
  intro h
  have hrows : (Store.init.run (.inverse sampleReported) sampleCutShort).map (fun store ↦
      (store.phase, store.db.snapshots.all fun row ↦ ((Serde.inverse sampleReported).snapshot
        row.snapshotJson).all fun snapshot ↦ snapshot.isEvent ||
          ((snapshot.state.value.pointer "/loss").bind Value.asF64).isSome)) =
      some (.ready, true) := by decide +kernel
  have hcatalog : ((Store.init.run (.inverse sampleReported) sampleCutShort).bind fun store ↦
      (catalog sampleDisplay ⟨["run-1"]⟩ [sampleChartSource] store.db).toOption.map fun response ↦
        (response.truncated, response.metrics.map fun metric ↦
          (metric.path, metric.sources.map ChartMetricSource.latestValue))) =
      some (false, [("/loss", [none])]) := by decide +kernel
  obtain ⟨store, hstore, hvalues⟩ := Option.map_eq_some_iff.mp hrows
  rw [hstore, Option.bind_some] at hcatalog
  obtain ⟨response, hresponse, hshown⟩ := Option.map_eq_some_iff.mp hcatalog
  obtain ⟨hready, hlosses⟩ := Prod.mk.inj hvalues
  obtain ⟨hwhole, hmetrics⟩ := Prod.mk.inj hshown
  have hexact := h _ _ store _ _ _ response (Serde.inverse_roundTrip _) hstore hready
    (toOption_eq_some.mp hresponse) hwhole
  obtain ⟨metric, hmetric, hpath, reporter, hreporter, hnone⟩ : ∃ metric ∈ response.metrics,
      metric.path = "/loss" ∧ ∃ reporter ∈ metric.sources, reporter.latestValue = none := by
    obtain ⟨metric, hmetric, heq⟩ := List.mem_map.mp (hmetrics ▸ List.mem_singleton_self _)
    obtain ⟨hpath, hsources⟩ := Prod.mk.inj heq
    obtain ⟨reporter, hreporter, hnone⟩ :=
      List.mem_map.mp (hsources ▸ List.mem_singleton_self none)
    exact ⟨metric, hmetric, hpath, reporter, hreporter, hnone⟩
  obtain ⟨row, snapshot, hnewest, hvalue, -⟩ := hexact.latest metric hmetric reporter hreporter
  have hloss := List.all_eq_true.mp hlosses row hnewest.observes.stored
  rw [hnewest.observes.decoded, Option.all_some, hnewest.observes.observation, Bool.false_or,
    ← hpath, ← hvalue, hnone] at hloss
  cases hloss

end Rvx.Engine
