import Rvx.Engine.QuerySound
import Rvx.Lib.OrderStatistics
import Rvx.Tables.Summary

/-!
# Summaries are exact

A summary that succeeds counts every selected observation of its sources, and its statistics are
those of the numbers the raw snapshots hold.  Where the index lacks one of these numbers the summary
fails instead.
-/

namespace Rvx.Tables

open Core Engine Check StableSort Database OrderStatistics

variable {serde : Serde} {request : TableSummaryRequest} {chart : ChartIndex}
  {rows scanned : List SnapshotRow}

/-! ## The raw observations -/

/-- The selected observations of a source, by observation time and then by ID. -/
def observedRows (serde : Serde) (request : TableSummaryRequest) (rows : List SnapshotRow)
    (run source : String) : List SnapshotRow :=
  sortOn (fun row ↦ toLex (row.observedAtNs, row.id))
    ((selectedRows serde request.query rows).filter fun row ↦
      row.runId = run ∧ row.sourceId = source)

/-- The numbers some observations have at a path. -/
def rawNumbers (serde : Serde) (path : String) (observed : List SnapshotRow) : List ℚ :=
  observed.filterMap (doubleAt serde path)

/-- A row tells what the raw observations of its source say about its path. -/
structure Summarizes (serde : Serde) (observed : List SnapshotRow) (row : TableSummaryRow) :
    Prop where
  observations : row.observations = observed.length
  count : row.count = (rawNumbers serde row.path observed).length
  missing : row.missing = observed.countP fun raw ↦ (numberAt serde row.path raw).isNone
  minimum : ∀ value, row.minimum = some value ↔
    IsLeast {bound | bound ∈ rawNumbers serde row.path observed} value
  maximum : ∀ value, row.maximum = some value ↔
    IsGreatest {bound | bound ∈ rawNumbers serde row.path observed} value
  p95 : ∀ value, row.p95 = some value ↔ IsLeast {bound | bound ∈ rawNumbers serde row.path observed ∧
    95 * (rawNumbers serde row.path observed).length ≤
      100 * rank (rawNumbers serde row.path observed) bound} value
  current : row.current = observed.getLast?.bind (doubleAt serde row.path)
  absent : ∀ latest, observed.getLast? = some latest →
    (row.current = none ↔ numberAt serde row.path latest = none)
  snapshotId : row.snapshotId = observed.getLast?.map fun raw ↦ String.ofList (printNat raw.id)
  observedAtNs : row.observedAtNs = observed.getLast?.map SnapshotRow.observedAtNs

theorem mem_observedRows {row : SnapshotRow} {run source : String} :
    row ∈ observedRows serde request rows run source ↔
      row ∈ selectedRows serde request.query rows ∧ row.runId = run ∧ row.sourceId = source := by
  rw [observedRows, mem_sortOn, List.mem_filter, decide_eq_true_eq]

/-! ## The points of a source -/

/-- The points of a source show its selected observations, the latest one last. -/
theorem points_observed (h : Scanned serde request.query chart rows scanned)
    (hids : (rows.map SnapshotRow.id).Nodup) (run source : String) :
    Scan.pointsOf serde request.query chart (toLex (run, source)) scanned =
      (observedRows serde request rows run source).map (shownPoint serde request.query chart) := by
  obtain ⟨met, hpoints, hmem, hscan⟩ := h.exists_met run source
  rw [hpoints]
  congr 1
  have hdistinct : (rows.map fun row ↦ toLex (row.observedAtNs, row.id)).Nodup := by
    rw [List.Nodup, List.pairwise_map] at hids ⊢
    refine hids.imp fun {row other} hne heq ↦ hne ?_
    simp only [EmbeddingLike.apply_eq_iff_eq, Prod.mk.injEq] at heq
    exact heq.2
  have hordered : (observedRows serde request rows run source).Pairwise fun row other ↦
      toLex (row.observedAtNs, row.id) < toLex (other.observedAtNs, other.id) :=
    ordered_sortOn (hdistinct.sublist ((List.filter_sublist.trans List.filter_sublist).map _))
  refine @eq_of_ordered _ _ _ (fun row : SnapshotRow ↦ toLex (row.observedAtNs, row.id)) _ _ ?_
    hordered fun row ↦ ?_
  · refine hscan.imp_of_mem fun {row other} hrow hother hlt ↦ ?_
    obtain ⟨-, hrun, hsource⟩ := (hmem row).mp hrow
    obtain ⟨-, hrun', hsource'⟩ := (hmem other).mp hother
    simpa only [scanOrder, Prod.Lex.toLex_lt_toLex, hrun, hrun', hsource, hsource',
      EmbeddingLike.apply_eq_iff_eq, Prod.mk.injEq, lt_irrefl, false_or, true_and] using hlt
  · rw [hmem, mem_observedRows]

/-- Where no number may have been skipped, a point shows the raw number. -/
theorem valueAt_shownPoint (h : Scanned serde request.query chart rows scanned)
    {known : OrderedMap (String ×ₗ String ×ₗ String) ℕ}
    (hknows : Knows request.query chart known) {path : String} {index : ℕ}
    (hindex : request.paths[index]? = some path) (hpath : validateSnapshotPointer path = .ok ())
    {row : SnapshotRow} (hrow : row ∈ selectedRows serde request.query rows)
    (hcovered : uncovered path index (known.get? (fieldKey row.runId row.sourceId path))
      (shownPoint serde request.query chart row) = false) :
    valueAt index (shownPoint serde request.query chart row) = doubleAt serde path row := by
  have hmem := List.mem_of_getElem? hindex
  obtain ⟨-, snapshot, hdecode, hshows⟩ := h.shown hrow
  cases hknown : known.get? (fieldKey row.runId row.sourceId path) with
  | some first =>
    refine hshows.getD_values hdecode hknows hindex hpath hknown fun hexcludes hlt hnone ↦ ?_
    rw [hknown, uncovered, hexcludes, Option.all_some, decide_eq_true hlt, valueAt, hnone]
      at hcovered
    simp at hcovered
  | none =>
    have hnone : valueAt index (shownPoint serde request.query chart row) = none := by
      rw [Option.eq_none_iff_forall_ne_some]
      intro value hvalue
      obtain ⟨field, hfield, hkey, -⟩ := ((hshows.values index path hindex value).mp hvalue).1
      have hfound := (hknows _ _ _ _).mpr
        ⟨(mem_selectedRows.mp hrow).2.1, hmem, field, hfield, hkey, rfl⟩
      rw [hknown] at hfound
      simp at hfound
    rw [hknown, uncovered, hnone] at hcovered
    have hraw := hshows.numberAt_eq_none hdecode hknows hmem (mem_selectedRows.mp hrow).2.1 hpath
      hknown (by simpa using hcovered)
    rw [hnone, doubleAt, hraw, Option.bind_none]

/-! ## The loops -/

theorem summarizePath_ok {known : OrderedMap (String ×ₗ String ×ₗ String) ℕ} {source : Source}
    {points : List Projected} {answered answered' : List TableSummaryRow} {entry : String × ℕ}
    (h : summarizePath known source points answered entry = .ok answered') :
    answered' = answered ++ [summaryRow source entry.1 entry.2 points] ∧
      ∀ point ∈ points, uncovered entry.1 entry.2
        (known.get? (fieldKey source.runId source.id entry.1)) point = false := by
  simp only [summarizePath, bind_eq_ok, exists_unit, reject_ok, pure_eq_ok, List.any_eq_true,
    not_exists, not_and, Bool.not_eq_true] at h
  exact ⟨h.2.symm, h.1⟩

/-- The points of a source in a projection. -/
def sourcePoints (projected : QueryProjection) (source : Source) : List Projected :=
  (projected.groups.get? (toLex (source.runId, source.id))).getD []

theorem summarizeSource_ok {projected : QueryProjection} {source : Source}
    {answered answered' : List TableSummaryRow}
    (h : summarizeSource request projected answered source = .ok answered') :
    answered' = answered ++ (request.paths.zipIdx.flatMap fun entry ↦
        [summaryRow source entry.1 entry.2 (sourcePoints projected source)]) ∧
      ∀ entry ∈ request.paths.zipIdx, ∀ point ∈ sourcePoints projected source,
        uncovered entry.1 entry.2
          (projected.known.get? (fieldKey source.runId source.id entry.1)) point = false :=
  @foldlM_appends _ _ _ _ (summarizePath projected.known source (sourcePoints projected source))
    (fun answered ↦ answered) (fun entry ↦
      [summaryRow source entry.1 entry.2 (sourcePoints projected source)])
    (fun entry ↦ ∀ point ∈ sourcePoints projected source, uncovered entry.1 entry.2
      (projected.known.get? (fieldKey source.runId source.id entry.1)) point = false)
    summarizePath_ok _ _ _ h

/-! ## The statistics -/

/-- A place lies beyond the nearest rank where at least 95 percent of the values are counted. -/
theorem nearestRank_pred_lt {count covered : ℕ} (hpos : 0 < count) :
    nearestRank count - 1 < covered ↔ 95 * count ≤ 100 * covered := by
  unfold nearestRank
  omega

theorem nearestRank_pred_lt_self {count : ℕ} (hpos : 0 < count) : nearestRank count - 1 < count := by
  rw [nearestRank_pred_lt hpos]
  omega

/-- The nearest-rank percentile of sorted values. -/
theorem isLeast_p95 {values : List ℚ} {value : ℚ} :
    (if 0 < (sortOn (fun value ↦ value) values).length then
        (sortOn (fun value ↦ value) values)[nearestRank (sortOn (fun value ↦ value) values).length - 1]?
      else none) = some value ↔
    IsLeast {bound | bound ∈ values ∧ 95 * values.length ≤ 100 * rank values bound} value := by
  rw [length_sortOn]
  refine eq_some_iff_isLeast (fun value hvalue ↦ ?_) (fun hnonempty ↦ ?_) value
  · split_ifs at hvalue with hpos
    have hleast := isLeast_getElem? (pairwise_le_sortOn (fun value ↦ value) values) hvalue
    simpa only [mem_sortOn, rank_perm (perm_sortOn (fun value ↦ value) values),
      nearestRank_pred_lt hpos] using hleast
  · obtain ⟨bound, hbound, -⟩ := hnonempty
    have hpos : 0 < values.length := List.length_pos_of_mem hbound
    rw [if_pos hpos, List.getElem?_eq_getElem]
    · rfl
    · rw [length_sortOn]
      exact nearestRank_pred_lt_self hpos

theorem isLeast_minimum {values : List ℚ} {value : ℚ} :
    (sortOn (fun value ↦ value) values).head? = some value ↔
      IsLeast {bound | bound ∈ values} value := by
  refine eq_some_iff_isLeast (fun value hvalue ↦ ?_) (fun hnonempty ↦ ?_) value
  · simpa only [mem_sortOn] using
      isLeast_head? (pairwise_le_sortOn (fun value ↦ value) values) hvalue
  · obtain ⟨bound, hbound⟩ := hnonempty
    rw [List.isSome_head?]
    exact List.ne_nil_of_mem (mem_sortOn.mpr hbound)

theorem isGreatest_maximum {values : List ℚ} {value : ℚ} :
    (sortOn (fun value ↦ value) values).getLast? = some value ↔
      IsGreatest {bound | bound ∈ values} value := by
  refine eq_some_iff_isGreatest (fun value hvalue ↦ ?_) (fun hnonempty ↦ ?_) value
  · simpa only [mem_sortOn] using
      isGreatest_getLast? (pairwise_le_sortOn (fun value ↦ value) values) hvalue
  · obtain ⟨bound, hbound⟩ := hnonempty
    rw [List.getLast?_isSome]
    exact List.ne_nil_of_mem (mem_sortOn.mpr hbound)

/-- Every observation is counted or missing. -/
theorem length_sub_rawNumbers {path : String} {observed : List SnapshotRow}
    (habsent : ∀ row ∈ observed, doubleAt serde path row = none ↔ numberAt serde path row = none) :
    observed.length - (rawNumbers serde path observed).length =
      observed.countP fun row ↦ (numberAt serde path row).isNone := by
  rw [rawNumbers, List.length_filterMap_eq_countP]
  have hcount := List.length_eq_countP_add_countP (fun row ↦ (doubleAt serde path row).isSome)
    (l := observed)
  have hsame : (observed.countP fun row ↦ ¬ (doubleAt serde path row).isSome = true) =
      observed.countP fun row ↦ (numberAt serde path row).isNone := by
    refine List.countP_congr fun row hrow ↦ ?_
    simpa using habsent row hrow
  omega

/-- The row of some points that show raw observations. -/
theorem summarizes_summaryRow {observed : List SnapshotRow} {source : Source} {path : String}
    {index : ℕ} {shown : SnapshotRow → Projected}
    (hvalues : ∀ row ∈ observed, valueAt index (shown row) = doubleAt serde path row)
    (hshown : ∀ row ∈ observed, (shown row).id = row.id ∧ (shown row).observed = row.observedAtNs)
    (habsent : ∀ row ∈ observed, doubleAt serde path row = none ↔ numberAt serde path row = none) :
    Summarizes serde observed (summaryRow source path index (observed.map shown)) := by
  have hnumbers : (observed.map shown).filterMap (valueAt index) = rawNumbers serde path observed := by
    rw [List.filterMap_map, rawNumbers]
    exact List.filterMap_congr fun row hrow ↦ hvalues row hrow
  have hlatest {α : Type} {column : Projected → α} {value : SnapshotRow → α}
      (hsame : ∀ row ∈ observed, column (shown row) = value row) :
      (observed.map shown).getLast?.map column = observed.getLast?.map value := by
    rw [List.getLast?_map, Option.map_map]
    exact Option.map_congr fun row hrow ↦ hsame row (List.mem_of_getLast? hrow)
  have hcurrent : (observed.map shown).getLast?.bind (valueAt index) =
      observed.getLast?.bind (doubleAt serde path) := by
    rw [List.getLast?_map, Option.bind_map]
    exact Option.bind_congr fun row hrow ↦ hvalues row (List.mem_of_getLast? hrow)
  constructor <;> simp only [summaryRow, hnumbers]
  · exact List.length_map _
  · exact length_sortOn _ _
  · rw [List.length_map, length_sortOn]
    exact length_sub_rawNumbers habsent
  · exact fun value ↦ isLeast_minimum
  · exact fun value ↦ isGreatest_maximum
  · exact fun value ↦ isLeast_p95
  · exact hcurrent
  · intro latest hlast
    rw [hcurrent, hlast, Option.bind_some]
    exact habsent latest (List.mem_of_getLast? hlast)
  · exact hlatest fun row hrow ↦ by rw [(hshown row hrow).1]
  · exact hlatest fun row hrow ↦ (hshown row hrow).2

/-! ## A summary that succeeds -/

/-- The steps of a summary that succeeds. -/
theorem tableSummary_steps {format : Formatting} {text : TableSummaryResponse → List Char}
    {sources : List Source} {db : Database} {response : TableSummaryResponse}
    (h : tableSummary serde format text request sources db = .ok response) :
    ∃ projected, projection serde format request.query db = .ok projected ∧
      response.axis = request.axis ∧
      response.rows = (sources.flatMap fun source ↦ request.paths.zipIdx.flatMap fun entry ↦
        [summaryRow source entry.1 entry.2 (sourcePoints projected source)]) ∧
      ∀ source ∈ sources, ∀ entry ∈ request.paths.zipIdx,
        ∀ point ∈ sourcePoints projected source, uncovered entry.1 entry.2
          (projected.known.get? (fieldKey source.runId source.id entry.1)) point = false := by
  simp only [tableSummary, bind_eq_ok, exists_unit, pure_eq_ok] at h
  obtain ⟨projected, hprojected, answered, hanswered, -, rfl⟩ := h
  obtain ⟨hrows, hcovered⟩ := @foldlM_appends _ _ _ _ (summarizeSource request projected)
    (fun answered ↦ answered) (fun source ↦ request.paths.zipIdx.flatMap fun entry ↦
      [summaryRow source entry.1 entry.2 (sourcePoints projected source)])
    (fun source ↦ ∀ entry ∈ request.paths.zipIdx, ∀ point ∈ sourcePoints projected source,
      uncovered entry.1 entry.2
        (projected.known.get? (fieldKey source.runId source.id entry.1)) point = false)
    summarizeSource_ok _ _ _ hanswered
  exact ⟨projected, hprojected, rfl, hrows, hcovered⟩

/-- A summary by the engine is one of the selected registered sources. -/
theorem Registrations.tableSummary_ok {runtime : Runtime} {registrations : Registrations}
    {format : Formatting} {text : TableSummaryResponse → List Char} {db : Database}
    {response : TableSummaryResponse}
    (h : registrations.tableSummary runtime serde format text request db = .ok response) :
    Tables.tableSummary serde format text request
      (registrations.selected request.runIds request.sourceIds) db = .ok response := by
  simp only [Registrations.tableSummary, Registrations.readTable, Registrations.tableSources,
    bind_eq_ok, exists_unit, pure_eq_ok] at h
  obtain ⟨-, sources, ⟨-, -, -, rfl⟩, hsummary⟩ := h
  exact hsummary

/-- The index holds every number of the selected observations of a source. -/
def Covers (serde : Serde) (request : TableSummaryRequest) (chart : ChartIndex)
    (rows : List SnapshotRow) (source : Source) : Prop :=
  ∀ path ∈ request.paths, ∀ row ∈ observedRows serde request rows source.runId source.id,
    ∀ value, doubleAt serde path row = some value → ⟨row.id, path, value⟩ ∈ chart.values

/-- A summary that succeeds summarizes the raw observations, all of whose numbers are indexed. -/
theorem summarizes_of_ok (hserde : serde.RoundTrip) (hpaths : serde.PathsRoundTrip) {db : Database}
    (hdb : Consistent db) (hsome : db.chart = some chart)
    (hbuilt : (chartProjection serde).Built db.snapshots chart) {format : Formatting}
    {text : TableSummaryResponse → List Char} {sources : List Source}
    {response : TableSummaryResponse}
    (h : tableSummary serde format text request sources db = .ok response) :
    (∀ row ∈ response.rows,
      Summarizes serde (observedRows serde request db.snapshots row.runId row.sourceId) row) ∧
    ∀ source ∈ sources, Covers serde request chart db.snapshots source := by
  obtain ⟨projected, hprojected, -, hrows, hcovered⟩ := tableSummary_steps h
  obtain ⟨hcheck, scanned, hscanned, hknows, hgroups⟩ :=
    projection_ok hserde hpaths hdb hsome hbuilt hprojected
  have hids : (db.snapshots.map SnapshotRow.id).Nodup :=
    hdb.rows.ids_ascending.imp fun hlt ↦ hlt.ne
  have hpoints (source : Source) : sourcePoints projected source =
      (observedRows serde request db.snapshots source.runId source.id).map
        (shownPoint serde request.query chart) :=
    (hgroups _).trans (points_observed hscanned hids source.runId source.id)
  have hvalues : ∀ source ∈ sources, ∀ path index, request.paths[index]? = some path →
      ∀ row ∈ observedRows serde request db.snapshots source.runId source.id,
        valueAt index (shownPoint serde request.query chart row) = doubleAt serde path row := by
    intro source hsource path index hindex row hrow
    have hpointers : ∀ path ∈ request.paths, validateSnapshotPointer path = .ok () := by
      simp only [checkQuery, bind_eq_ok, exists_unit, forM_eq_ok, mapError_eq_ok] at hcheck
      exact hcheck.2.2.2.2.2.1
    have hpoint := hcovered source hsource (path, index) (List.mem_zipIdx_iff_getElem?.mpr hindex)
      (shownPoint serde request.query chart row)
      (by rw [hpoints]; exact List.mem_map_of_mem hrow)
    obtain ⟨hselected, hrun, hid⟩ := mem_observedRows.mp hrow
    rw [← hrun, ← hid] at hpoint
    exact valueAt_shownPoint hscanned hknows hindex (hpointers path (List.mem_of_getElem? hindex))
      hselected hpoint
  constructor
  · intro row hrow
    rw [hrows] at hrow
    obtain ⟨source, hsource, hentries⟩ := List.mem_flatMap.mp hrow
    obtain ⟨⟨path, index⟩, hentry, hmem⟩ := List.mem_flatMap.mp hentries
    obtain rfl := List.mem_singleton.mp hmem
    rw [hpoints]
    refine summarizes_summaryRow
      (hvalues source hsource path index (List.mem_zipIdx_iff_getElem?.mp hentry))
      (fun raw hraw ↦ ?_) fun raw hraw ↦ ?_
    · obtain ⟨-, snapshot, -, hshows⟩ := hscanned.shown (mem_observedRows.mp hraw).1
      exact ⟨hshows.id, hshows.observed⟩
    · exact doubleAt_eq_none hserde hdb
        (mem_selectedRows.mp (mem_observedRows.mp hraw).1).1 path
  · intro source hsource path hpath raw hraw value hvalue
    obtain ⟨index, hindex⟩ := List.mem_iff_getElem?.mp hpath
    obtain ⟨hselected, -, -⟩ := mem_observedRows.mp hraw
    obtain ⟨hstored, -, hkind, -⟩ := mem_selectedRows.mp hselected
    obtain ⟨-, snapshot, hdecode, hshows⟩ := hscanned.shown hselected
    obtain ⟨other, hdecode', hdescribes⟩ := described_of_observation hserde hdb
      (chartContents_of_built hserde hdb.rows.written hdb.rows.ids_ascending hbuilt) hstored hkind
    obtain rfl := Option.some.inj (hdecode.symm.trans hdecode')
    have hshown := (hvalues source hsource path index hindex raw hraw).trans hvalue
    exact (hdescribes.values path value).mpr ((hshows.values index path hindex value).mp hshown)

/-- Every row of a summary that succeeds tells what the selected raw observations of its source say,
and a summary over observations with a number that is not indexed fails. -/
theorem tableSummary_exact (hserde : serde.RoundTrip) (hpaths : serde.PathsRoundTrip)
    {store : Store} (hstore : store.Reachable serde) (hready : store.phase = .ready)
    (format : Formatting) (text : TableSummaryResponse → List Char) (request : TableSummaryRequest)
    (sources : List Source) :
    (∀ response, tableSummary serde format text request sources store.db = .ok response →
      response.axis = request.axis ∧
      (response.rows.map fun row ↦ (row.runId, row.sourceId, row.path)) =
        (sources.flatMap fun source ↦ request.paths.map fun path ↦
          (source.runId, source.id, path)) ∧
      ∀ row ∈ response.rows, Summarizes serde
        (observedRows serde request store.db.snapshots row.runId row.sourceId) row) ∧
    ∃ chart, store.db.chart = some chart ∧
      ((∃ source ∈ sources, ¬ Covers serde request chart store.db.snapshots source) →
        ∃ reason, tableSummary serde format text request sources store.db = .error reason) := by
  obtain ⟨chart, hsome, hbuilt⟩ := (hstore.accepting hserde hready).chart
  constructor
  · intro response h
    obtain ⟨projected, -, haxis, hrows, -⟩ := tableSummary_steps h
    refine ⟨haxis, ?_, (summarizes_of_ok hserde hpaths hstore.consistent hsome hbuilt h).1⟩
    rw [hrows, List.map_flatMap]
    congr 1
    funext source
    rw [List.map_flatMap]
    conv_rhs => rw [← List.zipIdx_map_fst 0 request.paths, List.map_map]
    rw [List.map_eq_flatMap]
    rfl
  · refine ⟨chart, hsome, ?_⟩
    rintro ⟨source, hsource, huncovered⟩
    cases h : tableSummary serde format text request sources store.db with
    | error reason => exact ⟨reason, rfl⟩
    | ok response =>
      have hcovers := (summarizes_of_ok hserde hpaths hstore.consistent hsome hbuilt h).2
      exact absurd (hcovers source hsource) huncovered

def sampleSummary : TableSummaryRequest := ⟨["run-1"], ["/loss"], [], "wall_time", none, none⟩

def sampleSummarized : List Source := [⟨"trainer", "run-1", "learner", none, none, none⟩]

theorem tableSummary_exact_sample :
    ∃ store response, Store.init.run (.inversePaths sampleLosses) sampleIngested = some store ∧
      tableSummary (.inversePaths sampleLosses) sampleFormatting (fun _ ↦ []) sampleSummary
        sampleSummarized store.db = .ok response ∧
      (response.rows.map fun row ↦ (row.count, row.missing, row.p95, row.snapshotId)) =
        [(1, 1, some 3, some "2")] ∧
      ∀ row ∈ response.rows, Summarizes (.inversePaths sampleLosses) (observedRows
        (.inversePaths sampleLosses) sampleSummary store.db.snapshots row.runId row.sourceId) row := by
  have hrun : (Store.init.run (.inversePaths sampleLosses) sampleIngested).map Store.phase =
      some .ready := by decide +kernel
  have hsummary : ((Store.init.run (.inversePaths sampleLosses) sampleIngested).bind fun store ↦
      (tableSummary (.inversePaths sampleLosses) sampleFormatting (fun _ ↦ []) sampleSummary
        sampleSummarized store.db).toOption.map fun response ↦
          response.rows.map fun row ↦ (row.count, row.missing, row.p95, row.snapshotId)) =
      some [(1, 1, some 3, some "2")] := by decide +kernel
  obtain ⟨store, hstore, hready⟩ := Option.map_eq_some_iff.mp hrun
  rw [hstore, Option.bind_some] at hsummary
  obtain ⟨response, hresponse, hrows⟩ := Option.map_eq_some_iff.mp hsummary
  have hanswer := toOption_eq_some.mp hresponse
  have hexact := (tableSummary_exact (Serde.inversePaths_roundTrip sampleLosses)
    (Serde.inversePaths_pathsRoundTrip sampleLosses) ⟨_, hstore⟩ hready sampleFormatting
    (fun _ ↦ []) sampleSummary sampleSummarized).1 response hanswer
  exact ⟨store, response, hstore, hanswer, hrows, hexact.2.2⟩

end Rvx.Tables
