import Rvx.Engine.QueryMerged

/-!
# Partitioned queries

A query that succeeds, directly or from windows, has read every selected observation once, and each
of its series is a sample of the selected observations of its source that keeps gaps.
-/

namespace Rvx.Engine

open Core Check StableSort

variable {serde : Serde} {format : Formatting} {request : SnapshotQueryRequest}
  {chart : ChartIndex} {row : SnapshotRow} {rows : List SnapshotRow} {db : Database}
  {span low high : ℤ} {windows : List (ℤ × ℤ)}

/-! ## Windows that cover a selection -/

theorem ordered_window (hids : (rows.map SnapshotRow.id).Nodup) {window : ℤ × ℤ}
    {run source : String} : Ordered (request.place serde rows)
      (sourceRows serde (request.window span window) rows run source) :=
  @ordered_sourceRows serde (request.window span window) rows hids run source

/-- Windows that tile a range with all selected observations. -/
structure Covers (serde : Serde) (request : SnapshotQueryRequest) (rows : List SnapshotRow)
    (low high : ℤ) (windows : List (ℤ × ℤ)) : Prop where
  tiles : Tiles low high windows
  first : within request.fromBound request.toBound low = true
  last : within request.fromBound request.toBound high = true
  encloses : ∀ row ∈ selectedRows serde request rows,
    low ≤ (request.axisOf serde rows row).getD 0 ∧ (request.axisOf serde rows row).getD 0 ≤ high

namespace Covers

/-- Every selected observation is selected by one window. -/
theorem perm (h : Covers serde request rows low high windows) (span : ℤ) :
    (windows.flatMap fun window ↦ selectedRows serde (request.window span window) rows).Perm
      (selectedRows serde request rows) :=
  selectedRows_perm h.tiles h.first h.last h.encloses

theorem axis_bounds (h : Covers serde request rows low high windows) {window : ℤ × ℤ}
    (hwindow : window ∈ windows)
    (hrow : row ∈ selectedRows serde (request.window span window) rows) :
    window.1 ≤ (request.axisOf serde rows row).getD 0 ∧
      (request.axisOf serde rows row).getD 0 ≤ window.2 := by
  obtain ⟨hge, hproper, hle⟩ := h.tiles.bounds window hwindow
  rw [selectedRows_window (within_of_between h.first h.last hge (hproper.trans hle))
    (within_of_between h.first h.last (hge.trans hproper) hle), List.mem_filter,
    decide_eq_true_eq] at hrow
  exact hrow.2

/-- The selected observations of a source are those of the windows, one after another. -/
theorem sourceRows_eq (h : Covers serde request rows low high windows)
    (hids : (rows.map SnapshotRow.id).Nodup) (span : ℤ) (run source : String) :
    (windows.flatMap fun window ↦
        sourceRows serde (request.window span window) rows run source) =
      sourceRows serde request rows run source := by
  refine eq_of_ordered ?_ (ordered_sourceRows hids) fun row ↦ ?_
  · refine List.pairwise_flatMap.mpr ⟨fun window _ ↦ ordered_window hids, ?_⟩
    refine h.tiles.pairwise.imp_of_mem fun {window later} hwindow hlater hlt row hrow other hother ↦ ?_
    have hbefore := (h.axis_bounds hwindow (mem_sourceRows.mp hrow).1).2
    have hafter := (h.axis_bounds hlater (mem_sourceRows.mp hother).1).1
    exact Prod.Lex.toLex_lt_toLex.mpr (Or.inl (by omega))
  · have hmem : row ∈ _ ↔ row ∈ _ := (h.perm span).mem_iff
    simp only [List.mem_flatMap, mem_sourceRows] at hmem ⊢
    rw [← hmem]
    constructor
    · rintro ⟨window, hwindow, hselected, hsource⟩
      exact ⟨⟨window, hwindow, hselected⟩, hsource⟩
    · rintro ⟨⟨window, hwindow, hselected⟩, hsource⟩
      exact ⟨window, hwindow, hselected, hsource⟩

/-- The observations shown by the windows are a sample of all of them. -/
theorem sample (h : Covers serde request rows low high windows)
    (hids : (rows.map SnapshotRow.id).Nodup) (span : ℤ) (run source path : String) :
    Sample (request.place serde rows) (fun row ↦ doubleAt serde path row = none)
      (sourceRows serde request rows run source)
      (windows.flatMap (windowRows serde request rows span run source path)) := by
  rw [← h.sourceRows_eq hids span run source]
  refine (Sample.flatMap ?_ fun window _ ↦ ?_).1
  · rw [h.sourceRows_eq hids span run source]
    exact ordered_sourceRows hids
  · have hordered : Ordered (request.place serde rows)
        (sourceRows serde (request.window span window) rows run source) := ordered_window hids
    have htwo : 2 ≤ (request.window span window).maxPoints := by
      unfold SnapshotQueryRequest.window
      dsimp only
      omega
    exact ⟨sample_sampleRows hordered (by omega), leading_sampleRows hordered htwo⟩

end Covers

/-! ## A query that succeeds -/

/-- The span of a query covers its selection. -/
theorem covers_of_bounds (hserde : serde.RoundTrip) (hdb : Consistent db)
    (hsome : db.chart = some chart) (hbuilt : (chartProjection serde).Built db.snapshots chart)
    {count : ℕ} (hbounds : queryBounds request db = .ok (low, high, count))
    (htiles : Tiles low high windows) : Covers serde request db.snapshots low high windows := by
  have hcontents := chartContents_of_built hserde hdb.rows.written hdb.rows.ids_ascending hbuilt
  obtain ⟨-, hfirst, hlast, hencloses⟩ := queryBounds_ok hsome hbounds
  refine ⟨htiles, hfirst, hlast, fun row hrow ↦ ?_⟩
  obtain ⟨axis, hposition⟩ := Option.isSome_iff_exists.mp (mem_selectedRows.mp hrow).2.2.2
  rw [SnapshotQueryRequest.positionOf, Option.filter_eq_some_iff] at hposition
  rw [hposition.1]
  exact hencloses axis (mem_spanValues hserde hdb hcontents hrow hposition.1)

/-- A request that asks for no points fails with another error than a budget. -/
theorem maxPoints_pos_of_budget {error : EngineError}
    (h : queryPage serde format request db = .error error) (hbudget : scanBudget error = true) :
    0 < request.maxPoints := by
  by_contra hzero
  have hnone : request.maxPoints = 0 := by omega
  have hrejected : ∃ reason, checkQuery request = .error reason ∧ scanBudget reason = false := by
    unfold checkQuery checkIds reject
    split_ifs <;> first | exact ⟨_, rfl, by decide⟩ | omega
  obtain ⟨reason, hreason, hother⟩ := hrejected
  have herror : queryPage serde format request db = .error reason := by
    rw [queryPage, projection, hreason]
    rfl
  rw [herror, Except.error.injEq] at h
  rw [← h, hother] at hbudget
  simp at hbudget

/-- The steps of a query that succeeds from windows. -/
theorem queryControlled_windows {error : EngineError}
    (hpage : queryPage serde format request db = .error error) {response : SnapshotQueryResponse}
    (hsome : db.chart = some chart)
    (h : queryControlled serde format request db = .ok response) :
    0 < request.maxPoints ∧ ∃ bounds, queryBounds request db = .ok bounds ∧
      Tiles bounds.1 bounds.2.1 (windowsRead serde format request db bounds) ∧
      ∃ answers : List ((ℤ × ℤ) × SnapshotQueryResponse),
        answers.map Prod.fst = windowsRead serde format request db bounds ∧
        (∀ answer ∈ answers, queryPage serde format
          (request.window (bounds.2.1 - bounds.1 + 1) answer.1) db = .ok answer.2) ∧
        ∃ merged, (answers.map Prod.snd).foldlM (Merged.addPage format) Merged.empty = .ok merged ∧
          finishQuery format request merged = .ok response := by
  unfold queryControlled at h
  simp only [hpage] at h
  split_ifs at h with hbudget
  simp only [bind_eq_ok] at h
  obtain ⟨⟨low, high, count⟩, hbounds, merged, hmerged, hfinish⟩ := h
  obtain ⟨hle, -⟩ := queryBounds_ok hsome hbounds
  obtain ⟨hpos, hcount⟩ := windowCount_spec request (show 0 < high - low + 1 by omega) count
  obtain ⟨answers, hwindows, htiles, hanswers, hfold⟩ :=
    readWindows_ok (tiles_cutWindows hpos hcount) hmerged
  exact ⟨maxPoints_pos_of_budget hpage hbudget, (low, high, count), hbounds, htiles, answers,
    hwindows, hanswers, merged, hfold, hfinish⟩

/-- The answer samples the merged series. -/
theorem finishQuery_ok {merged : Merged} {response : SnapshotQueryResponse}
    (h : finishQuery format request merged = .ok response) :
    response.series = (merged.series.entries.map Prod.snd).map
      (SnapshotQuerySeries.sampled request) := by
  unfold finishQuery at h
  simp only [bind_eq_ok, exists_unit, pure_eq_ok] at h
  obtain ⟨output, houtput, -, rfl⟩ := h
  have hseries := (@foldlM_appends _ _ _ _ (addSampled request) Prod.snd
    (fun item ↦ [item.sampled request]) (fun _ ↦ True) (fun {output item output'} hstep ↦ by
      unfold addSampled at hstep
      simp only [bind_eq_ok, exists_unit, pure_eq_ok] at hstep
      obtain ⟨-, rfl⟩ := hstep
      exact ⟨rfl, trivial⟩) _ _ _ houtput).1
  rw [hseries, List.nil_append, ← List.map_eq_flatMap]

/-- The selected observations a series shows. -/
def Shown (serde : Serde) (request : SnapshotQueryRequest) (rows : List SnapshotRow)
    (series : SnapshotQuerySeries) (kept : List SnapshotRow) : Prop :=
  series = seriesAlong serde request rows series.runId series.sourceId series.path kept ∧
    Sample (request.place serde rows) (fun row ↦ doubleAt serde series.path row = none)
      (sourceRows serde request rows series.runId series.sourceId) kept ∧
    kept.length ≤ request.maxPoints

/-- A single page shows samples. -/
theorem PageSeries.shown {series : List SnapshotQuerySeries}
    (h : PageSeries serde request chart rows series) (hids : (rows.map SnapshotRow.id).Nodup)
    (hpos : 0 < request.maxPoints) :
    ∀ part ∈ series, ∃ kept, Shown serde request rows part kept := by
  intro part hpart
  refine ⟨_, (h.drawn part hpart).2, sample_sampleRows (ordered_sourceRows hids) hpos, ?_⟩
  rw [length_sampleRows]
  exact min_le_left _ _

/-- The merged series, sampled again, show samples. -/
theorem Merges.shown {merged : Merged}
    (h : Merges serde request chart rows span windows merged.series)
    (hcovers : Covers serde request rows low high windows)
    (hids : (rows.map SnapshotRow.id).Nodup) (hpos : 0 < request.maxPoints) :
    ∀ item ∈ merged.series.entries.map Prod.snd,
      ∃ kept, Shown serde request rows (item.sampled request) kept := by
  intro item hitem
  obtain ⟨⟨key, item⟩, hentry, rfl⟩ := List.mem_map.mp hitem
  obtain ⟨run, source, path, rfl⟩ : ∃ run source path, key = fieldKey run source path :=
    ⟨_, _, _, rfl⟩
  obtain ⟨-, rfl⟩ := h.drawn run source path item (OrderedMap.get?_eq_some.mpr hentry)
  have hsample := hcovers.sample hids span run source path
  have hordered : Ordered (request.place serde rows) (sourceRows serde request rows run source) :=
    ordered_sourceRows hids
  rw [seriesAlong_sampled]
  refine ⟨_, rfl,
    hsample.trans hordered (sample_sampleRows (hordered.sublist hsample.sublist) hpos), ?_⟩
  rw [length_sampleRows]
  exact min_le_left _ _

/-- A query that succeeds, directly or from windows, has read pages that partition its selection,
and the windows among them tile the span of the axis.  Every series shows at most the requested
number of observations of its source: a part of the selected ones in projection order that ends
with the last of them and has no two numbers next to each other where an observation without a
number lies between. -/
theorem query_partitioned (hserde : serde.RoundTrip) (hpaths : serde.PathsRoundTrip) {store : Store}
    (hstore : store.Reachable serde) (hready : store.phase = .ready)
    {response : SnapshotQueryResponse}
    (h : queryControlled serde format request store.db = .ok response) :
    (∀ page ∈ pagesRead serde format request store.db,
      ∃ answer, queryPage serde format page store.db = .ok answer) ∧
    ((pagesRead serde format request store.db).flatMap fun page ↦
      selectedRows serde page store.db.snapshots).Perm
        (selectedRows serde request store.db.snapshots) ∧
    (∀ error bounds, queryPage serde format request store.db = .error error →
      queryBounds request store.db = .ok bounds →
      Tiles bounds.1 bounds.2.1 (windowsRead serde format request store.db bounds)) ∧
    ∀ series ∈ response.series, ∃ kept,
      series = seriesAlong serde request store.db.snapshots series.runId series.sourceId
        series.path kept ∧
      Ordered (request.place serde store.db.snapshots)
        (sourceRows serde request store.db.snapshots series.runId series.sourceId) ∧
      Sample (request.place serde store.db.snapshots)
        (fun row ↦ numberAt serde series.path row = none)
        (sourceRows serde request store.db.snapshots series.runId series.sourceId) kept ∧
      kept.length ≤ request.maxPoints := by
  have hdb := hstore.consistent
  have hids : (store.db.snapshots.map SnapshotRow.id).Nodup :=
    hdb.rows.ids_ascending.imp fun hlt ↦ hlt.ne
  obtain ⟨chart, hsome, hbuilt⟩ := (hstore.accepting hserde hready).chart
  -- a sample by doubles is one by numbers
  have hnumbers : (∀ series ∈ response.series,
        ∃ kept, Shown serde request store.db.snapshots series kept) →
      ∀ series ∈ response.series, ∃ kept,
        series = seriesAlong serde request store.db.snapshots series.runId series.sourceId
          series.path kept ∧
        Ordered (request.place serde store.db.snapshots)
          (sourceRows serde request store.db.snapshots series.runId series.sourceId) ∧
        Sample (request.place serde store.db.snapshots)
          (fun row ↦ numberAt serde series.path row = none)
          (sourceRows serde request store.db.snapshots series.runId series.sourceId) kept ∧
        kept.length ≤ request.maxPoints := by
    intro hshown series hseries
    obtain ⟨kept, hcolumns, hsample, hlength⟩ := hshown series hseries
    refine ⟨kept, hcolumns, ordered_sourceRows hids, hsample.congr fun row hrow ↦ ?_, hlength⟩
    exact doubleAt_eq_none hserde hdb (mem_selectedRows.mp (mem_sourceRows.mp hrow).1).1 _
  cases hpage : queryPage serde format request store.db with
  | ok answer =>
    obtain ⟨hpos, hseries⟩ := queryPage_series hserde hpaths hdb hsome hbuilt hpage
    have hresponse : answer = response := by
      rw [queryControlled, hpage] at h
      exact Except.ok.inj h
    subst hresponse
    have hpages : pagesRead serde format request store.db = [request] := by
      rw [pagesRead, hpage]
    rw [hpages]
    refine ⟨?_, by simp, fun error _ herror ↦ by simp at herror, hnumbers (hseries.shown hids hpos)⟩
    exact List.forall_mem_singleton.mpr ⟨answer, hpage⟩
  | error error =>
    obtain ⟨hpos, bounds, hbounds, htiles, answers, hwindows, hanswers, merged, hfold, hfinish⟩ :=
      queryControlled_windows hpage hsome h
    have hcovers := covers_of_bounds hserde hdb hsome hbuilt hbounds htiles
    have hpages : pagesRead serde format request store.db =
        (windowsRead serde format request store.db bounds).map
          (request.window (bounds.2.1 - bounds.1 + 1)) := by
      rw [pagesRead, hpage, hbounds]
    have hmerges := @Merges.foldl _ _ _ _ _ _ [] _ _ Merges.empty answers (fun answer hanswer ↦
      (queryPage_series hserde hpaths hdb hsome hbuilt (hanswers answer hanswer)).2) hfold
    rw [List.nil_append, hwindows] at hmerges
    rw [hpages]
    refine ⟨fun page hmem ↦ ?_, ?_, fun _ other _ hother ↦ ?_, hnumbers ?_⟩
    · obtain ⟨window, hwindow, rfl⟩ := List.mem_map.mp hmem
      rw [← hwindows] at hwindow
      obtain ⟨answer, hanswer, rfl⟩ := List.mem_map.mp hwindow
      exact ⟨answer.2, hanswers answer hanswer⟩
    · rw [List.flatMap_map]
      exact hcovers.perm _
    · obtain rfl := Except.ok.inj (hbounds.symm.trans hother)
      exact htiles
    · rw [finishQuery_ok hfinish]
      intro series hseries
      obtain ⟨item, hitem, rfl⟩ := List.mem_map.mp hseries
      exact hmerges.shown hcovers hids hpos item hitem

theorem query_partitioned_sample :
    ∃ store response, Store.init.run (.inversePaths sampleLosses) sampleIngested = some store ∧
      queryControlled (.inversePaths sampleLosses) sampleFormatting sampleQuery store.db =
        .ok response ∧
      response.series.map SnapshotQuerySeries.values = [[some 3, none]] ∧
      ∀ series ∈ response.series, ∃ kept,
        series = seriesAlong (.inversePaths sampleLosses) sampleQuery store.db.snapshots
          series.runId series.sourceId series.path kept ∧ kept.length ≤ 10 := by
  have hrun : (Store.init.run (.inversePaths sampleLosses) sampleIngested).map Store.phase =
      some .ready := by decide +kernel
  have hquery : ((Store.init.run (.inversePaths sampleLosses) sampleIngested).bind fun store ↦
      (queryControlled (.inversePaths sampleLosses) sampleFormatting sampleQuery
        store.db).toOption.map fun response ↦ response.series.map SnapshotQuerySeries.values) =
      some [[some 3, none]] := by decide +kernel
  obtain ⟨store, hstore, hready⟩ := Option.map_eq_some_iff.mp hrun
  rw [hstore, Option.bind_some] at hquery
  obtain ⟨response, hresponse, hvalues⟩ := Option.map_eq_some_iff.mp hquery
  have hanswer := toOption_eq_some.mp hresponse
  have hseries := (query_partitioned (Serde.inversePaths_roundTrip sampleLosses)
    (Serde.inversePaths_pathsRoundTrip sampleLosses) ⟨_, hstore⟩ hready hanswer).2.2.2
  refine ⟨store, response, hstore, hanswer, hvalues, fun series hmem ↦ ?_⟩
  obtain ⟨kept, hcolumns, -, -, hlength⟩ := hseries series hmem
  exact ⟨kept, hcolumns, hlength⟩

/-- A source that was restarted counts and observes the same again. -/
def sampleRepeated : StateSnapshot :=
  { sampleSnapshot 0 sampleLoss with sourceSessionId := "session-2" }

def sampleRestarted : List Action :=
  openNew ++ [.ingestBatch [sampleDelivery 0 none [sampleSnapshot 0 sampleLoss],
    ⟨sampleSource, { sampleDescriptor with sourceSessionId := "session-2" },
      ⟨1, "session-2", 0, 1, none, [sampleRepeated]⟩, fun _ ↦ 300⟩]]

/-- Two points of a series may share their axis, time and sequence. -/
theorem points_tied :
    ∃ store response,
      Store.init.run (.inversePaths [sampleSnapshot 0 sampleLoss, sampleRepeated]) sampleRestarted =
        some store ∧
      store.phase = .ready ∧
      queryControlled (.inversePaths [sampleSnapshot 0 sampleLoss, sampleRepeated])
        sampleFormatting sampleQuery store.db = .ok response ∧
      ∃ series ∈ response.series, ¬ (series.axes.zip
        (series.observedAtNs.zip series.sequences)).Pairwise fun point later ↦
          (toLex (point.1, toLex point.2) : ℤ ×ₗ ℤ ×ₗ ℕ) < toLex (later.1, toLex later.2) := by
  have hrun : (Store.init.run (.inversePaths [sampleSnapshot 0 sampleLoss, sampleRepeated])
      sampleRestarted).map Store.phase = some .ready := by decide +kernel
  have hquery : ((Store.init.run (.inversePaths [sampleSnapshot 0 sampleLoss, sampleRepeated])
      sampleRestarted).bind fun store ↦
      (queryControlled (.inversePaths [sampleSnapshot 0 sampleLoss, sampleRepeated])
        sampleFormatting sampleQuery store.db).toOption.map fun response ↦
          response.series.map fun series ↦
            (series.axes, series.observedAtNs, series.sequences)) =
      some [([100, 100], [100, 100], [0, 0])] := by decide +kernel
  obtain ⟨store, hstore, hready⟩ := Option.map_eq_some_iff.mp hrun
  rw [hstore, Option.bind_some] at hquery
  obtain ⟨response, hresponse, hseries⟩ := Option.map_eq_some_iff.mp hquery
  obtain ⟨series, hmem⟩ := List.exists_mem_of_ne_nil response.series fun hnil ↦ by
    simp [hnil] at hseries
  have hcolumns : (series.axes, series.observedAtNs, series.sequences) ∈
      [([100, 100], [100, 100], [0, 0])] := hseries ▸ List.mem_map_of_mem hmem
  simp only [List.mem_singleton, Prod.mk.injEq] at hcolumns
  obtain ⟨haxes, hobserved, hsequences⟩ := hcolumns
  refine ⟨store, response, hstore, hready, toOption_eq_some.mp hresponse, series, hmem, ?_⟩
  rw [haxes, hobserved, hsequences]
  decide

end Rvx.Engine
