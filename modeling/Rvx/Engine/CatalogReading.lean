import Rvx.Engine.ChartCatalog

/-!
# Reading the rows of a catalog

A catalog that is not truncated has read every row of every run: no limit was reached, and the list
of a run was not cut.  Each row became one reporter, listed under the metric of its path.
-/

namespace Rvx.Engine

open Core Check StableSort Database

/-! ## Reporters -/

/-- What a reporter says of the row it stands for: the run, the row, and whether the source is
marked as primary. -/
def shown (entry : String × ChartMetricSource) : String × CatalogRow × Bool :=
  (entry.2.runId, ⟨entry.1, entry.2.sourceId, entry.2.latestValue, entry.2.observedAtNs⟩,
    entry.2.primary)

/-- Whether a source is known and marked as primary. -/
def isMarked (sources : OrderedMap String ChartSource) (id : String) : Bool :=
  (sources.get? id).any ChartSource.marked

section Reporter

variable {display : ChartDisplay} {sources : OrderedMap String ChartSource} {run : String}

theorem shown_reporterOf {row : CatalogRow} {reporter : ChartMetricSource}
    (h : reporterOf display sources run row = .ok reporter) :
    shown (row.path, reporter) = (run, row, isMarked sources row.sourceId) := by
  unfold reporterOf at h
  unfold isMarked
  cases hsource : sources.get? row.sourceId with
  | none => simp [hsource, invalid] at h
  | some source =>
    rw [hsource] at h
    obtain rfl := Except.ok.inj h
    rfl

end Reporter

/-! ## The metrics -/

/-- The reporters of a path. -/
def reportersAt (path : String) (entries : List (String × ChartMetricSource)) :
    List ChartMetricSource :=
  (entries.filter fun entry ↦ entry.1 = path).map Prod.snd

theorem reportersAt_concat (path : String) (entries : List (String × ChartMetricSource))
    (entry : String × ChartMetricSource) :
    reportersAt path (entries ++ [entry]) =
      reportersAt path entries ++ if entry.1 = path then [entry.2] else [] := by
  unfold reportersAt
  rw [List.filter_append, List.filter_singleton, List.map_append]
  split_ifs with hpath
  · rw [decide_eq_true hpath]
    rfl
  · rw [decide_eq_false hpath]
    rfl

theorem mem_reportersAt {path : String} {entries : List (String × ChartMetricSource)}
    {reporter : ChartMetricSource} :
    reporter ∈ reportersAt path entries ↔ (path, reporter) ∈ entries := by
  simp [reportersAt]

/-- A metric lists the reporters of its path, and the runs they belong to. -/
structure ChartMetric.Collects (metric : ChartMetric) (path : String)
    (reporters : List ChartMetricSource) : Prop where
  path_eq : metric.path = path
  sources_eq : metric.sources = reporters
  runs_nodup : metric.runIds.Nodup
  mem_runs : ∀ run, run ∈ metric.runIds ↔ ∃ reporter ∈ reporters, reporter.runId = run

/-- One more reporter. -/
theorem ChartMetric.Collects.report {metric : ChartMetric} {path : String}
    {reporters : List ChartMetricSource} (h : metric.Collects path reporters)
    (reporter : ChartMetricSource) :
    ChartMetric.Collects
      { metric with
        runIds := if reporter.runId ∈ metric.runIds then metric.runIds
          else metric.runIds ++ [reporter.runId]
        sources := metric.sources ++ [reporter] }
      path (reporters ++ [reporter]) := by
  have hmem (run : String) : (∃ other ∈ reporters ++ [reporter], other.runId = run) ↔
      run ∈ metric.runIds ∨ reporter.runId = run := by
    rw [h.mem_runs]
    simp [or_and_right, exists_or]
  refine ⟨h.path_eq, by rw [h.sources_eq], ?_, fun run ↦ ?_⟩
  · dsimp only
    split_ifs with hknown
    · exact h.runs_nodup
    · refine List.nodup_append.mpr ⟨h.runs_nodup, List.nodup_singleton _, ?_⟩
      intro old hold new hnew heq
      rw [List.mem_singleton.mp hnew] at heq
      exact hknown (heq ▸ hold)
  · rw [hmem]
    dsimp only
    split_ifs with hknown
    · refine ⟨Or.inl, ?_⟩
      rintro (hrun | rfl)
      · exact hrun
      · exact hknown
    · rw [List.mem_append, List.mem_singleton]
      exact or_congr_right eq_comm

/-! ## The loop -/

namespace CatalogRead

/-- What was read so far is what the given reporters say. -/
structure Holds (read : CatalogRead) (entries : List (String × ChartMetricSource)) : Prop where
  counted : read.reporters = entries.length
  bounded : entries.length ≤ MAX_CATALOG_REPORTERS
  collects : ∀ path metric, read.metrics.get? path = some metric →
    metric.Collects path (reportersAt path entries)
  listed : ∀ path, path ∈ read.metrics ↔ ∃ entry ∈ entries, entry.1 = path

theorem holds_empty : CatalogRead.empty.Holds [] := by
  refine ⟨rfl, Nat.zero_le _, ?_, ?_⟩
  · rintro path metric ⟨⟩
  · simp [CatalogRead.empty]

variable {display : ChartDisplay} {read : CatalogRead}
  {entries : List (String × ChartMetricSource)}

/-- The metric a reporter is listed under collects the reporters before it. -/
theorem Holds.metric (h : read.Holds entries) (path : String) (name : String) (group : ChartGroup)
    (unit : Option String) :
    ((read.metrics.get? path).getD ⟨path, name, group, unit, [], []⟩).Collects path
      (reportersAt path entries) := by
  cases hget : read.metrics.get? path with
  | some metric => exact h.collects path metric hget
  | none =>
    have hnone : reportersAt path entries = [] := by
      refine List.eq_nil_iff_forall_not_mem.mpr fun reporter hreporter ↦ ?_
      have hmem := (h.listed path).mpr ⟨(path, reporter), mem_reportersAt.mp hreporter, rfl⟩
      rw [← OrderedMap.get?_isSome, hget] at hmem
      cases hmem
    rw [hnone]
    exact ⟨rfl, rfl, List.nodup_nil, by simp⟩

/-- One turn of the loop that stays within the limits. -/
theorem Holds.report (h : read.Holds entries) {path : String} {reporter : ChartMetricSource}
    (hroom : ¬ (read.count display path reporter).full) :
    ((read.count display path reporter).report display path reporter).Holds
      (entries ++ [(path, reporter)]) := by
  have hcounted : (read.count display path reporter).reporters = (entries ++ [(path, reporter)]).length := by
    rw [List.length_append, ← h.counted]
    rfl
  refine ⟨hcounted, ?_, fun other metric hget ↦ ?_, fun other ↦ ?_⟩
  · rw [← hcounted]
    exact Nat.le_of_not_lt fun hlt ↦ hroom (Or.inl hlt)
  · rw [CatalogRead.report, OrderedMap.get?_insert] at hget
    rw [reportersAt_concat]
    by_cases hpath : other = path
    · subst hpath
      rw [if_pos rfl] at hget ⊢
      obtain rfl := Option.some.inj hget
      exact (h.metric other (display.presentation other).1 (display.presentation other).2.1
        (display.presentation other).2.2).report reporter
    · rw [if_neg hpath] at hget
      rw [if_neg (Ne.symm hpath), List.append_nil]
      exact h.collects other metric hget
  · rw [CatalogRead.report, OrderedMap.mem_insert]
    have hold : other ∈ (read.count display path reporter).metrics ↔
        ∃ entry ∈ entries, entry.1 = other := h.listed other
    rw [hold]
    simp only [List.mem_append, List.mem_singleton, or_and_right, exists_or, exists_eq_left]
    exact or_comm.trans (or_congr_right eq_comm)

end CatalogRead

section Loops

variable {display : ChartDisplay} {sources : OrderedMap String ChartSource}
  {tables : CatalogTables}

/-- A loop over rows that ends without truncation has listed all of them. -/
theorem readReporters_holds {run : String} {rows : List CatalogRow} {read read' : CatalogRead}
    {entries : List (String × ChartMetricSource)} (hread : read.Holds entries)
    (h : readReporters display sources run rows read = .ok read')
    (hwhole : read'.truncated = false) :
    ∃ new, new.map shown = rows.map (fun row ↦ (run, row, isMarked sources row.sourceId)) ∧
      read'.Holds (entries ++ new) ∧ read.truncated = false ∧ read'.runs = read.runs := by
  induction rows generalizing read entries with
  | nil =>
    obtain rfl := Except.ok.inj h
    exact ⟨[], rfl, by rwa [List.append_nil], hwhole, rfl⟩
  | cons row rest ih =>
    rw [readReporters, bind_eq_ok] at h
    obtain ⟨reporter, hreporter, h⟩ := h
    dsimp only at h
    split_ifs at h with hfull
    · obtain rfl := Except.ok.inj h
      cases hwhole
    · obtain ⟨new, hshown, hholds, hbefore, hruns⟩ := ih (hread.report hfull) h
      refine ⟨(row.path, reporter) :: new, ?_, ?_, hbefore, hruns⟩
      · rw [List.map_cons, List.map_cons, shown_reporterOf hreporter, hshown]
      · rwa [List.append_assoc, List.singleton_append] at hholds

/-- The flag is never cleared. -/
theorem readReporters_truncated {run : String} {rows : List CatalogRow} {read read' : CatalogRead}
    (hread : read.truncated = true) (h : readReporters display sources run rows read = .ok read') :
    read'.truncated = true := by
  induction rows generalizing read with
  | nil =>
    obtain rfl := Except.ok.inj h
    exact hread
  | cons row rest ih =>
    rw [readReporters, bind_eq_ok] at h
    obtain ⟨reporter, -, h⟩ := h
    dsimp only at h
    split_ifs at h with hfull
    · obtain rfl := Except.ok.inj h
      rfl
    · refine ih ?_ h
      exact hread

theorem readRun_truncated {run : String} {read read' : CatalogRead} (hread : read.truncated = true)
    (h : readRun display sources tables read run = .ok read') : read'.truncated = true := by
  refine readReporters_truncated ?_ h
  dsimp only
  rw [hread, Bool.true_or, Bool.true_or]

/-- The rows of a run, none of them cut. -/
def CatalogTables.allRows (tables : CatalogTables) (run : String) : List CatalogRow :=
  sortOn (fun row ↦ toLex (row.path, row.sourceId)) (tables.joinedRows run)

/-- A list of rows that is within the limit of reporters was not cut. -/
theorem catalogRows_eq_allRows {run : String}
    (h : (tables.catalogRows run).length ≤ MAX_CATALOG_REPORTERS) :
    tables.catalogRows run = tables.allRows run := by
  unfold CatalogTables.catalogRows at h ⊢
  refine List.take_of_length_le ?_
  rw [List.length_take, MAX_CATALOG_REPORTERS] at h
  omega

/-- One turn of the loop over the runs. -/
theorem readRun_holds {run : String} {read read' : CatalogRead}
    {entries : List (String × ChartMetricSource)} (hread : read.Holds entries)
    (h : readRun display sources tables read run = .ok read') (hwhole : read'.truncated = false) :
    ∃ new, new.map shown = (tables.allRows run).map
        (fun row ↦ (run, row, isMarked sources row.sourceId)) ∧
      read'.Holds (entries ++ new) ∧ read'.runs = read.runs ++ [tables.runInfo run] ∧
      tables.runTruncated run = false := by
  -- what a turn changes beside the metrics plays no part in them
  have hstart (axes : OrderedSet String) (truncated : Bool) :
      CatalogRead.Holds { read with
        runs := read.runs ++ [tables.runInfo run], logicalAxes := axes, truncated := truncated }
        entries := ⟨hread.counted, hread.bounded, hread.collects, hread.listed⟩
  obtain ⟨new, hshown, hholds, htruncated, hruns⟩ := readReporters_holds (hstart _ _) h hwhole
  dsimp only at htruncated hruns
  rw [Bool.or_eq_false_iff, Bool.or_eq_false_iff] at htruncated
  have hlength : (tables.catalogRows run).length ≤ MAX_CATALOG_REPORTERS := by
    have hsame := congrArg List.length hshown
    have hbounded := hholds.bounded
    rw [List.length_map, List.length_map] at hsame
    rw [List.length_append] at hbounded
    omega
  rw [catalogRows_eq_allRows hlength] at hshown
  exact ⟨new, hshown, hholds, hruns, htruncated.1.2⟩

/-- All rows of some runs. -/
def CatalogTables.runRows (tables : CatalogTables) (runs : List String) :
    List (String × CatalogRow) :=
  runs.flatMap fun run ↦ (tables.allRows run).map fun row ↦ (run, row)

/-- The loop over the runs. -/
theorem readRuns_holds {runs : List String} {read read' : CatalogRead}
    {entries : List (String × ChartMetricSource)} (hread : read.Holds entries)
    (h : runs.foldlM (readRun display sources tables) read = .ok read')
    (hwhole : read'.truncated = false) :
    ∃ new, new.map shown = (tables.runRows runs).map
        (fun row ↦ (row.1, row.2, isMarked sources row.2.sourceId)) ∧
      read'.Holds (entries ++ new) ∧ read'.runs = read.runs ++ runs.map tables.runInfo ∧
      ∀ run ∈ runs, tables.runTruncated run = false := by
  induction runs generalizing read entries with
  | nil =>
    obtain rfl := Except.ok.inj h
    exact ⟨[], rfl, by rwa [List.append_nil], by simp, by simp⟩
  | cons run rest ih =>
    obtain ⟨middle, hmiddle, hrest⟩ := foldlM_cons_eq_ok.mp h
    have hmiddleWhole : middle.truncated = false := by
      rw [← Bool.not_eq_true]
      intro htruncated
      have hafter : read'.truncated = true := foldlM_keeps
        (fun _ _ _ _ hstate hstep ↦ readRun_truncated hstate hstep) htruncated hrest
      rw [hwhole] at hafter
      cases hafter
    obtain ⟨first, hfirst, hholds, hruns, hskipped⟩ := readRun_holds hread hmiddle hmiddleWhole
    obtain ⟨others, hothers, hall, hallRuns, hallSkipped⟩ := ih hholds hrest
    refine ⟨first ++ others, ?_, ?_, ?_, List.forall_mem_cons.mpr ⟨hskipped, hallSkipped⟩⟩
    · rw [List.map_append, hfirst, hothers, CatalogTables.runRows, CatalogTables.runRows,
        List.flatMap_cons, List.map_append, List.map_map]
      rfl
    · rwa [List.append_assoc] at hall
    · rw [hallRuns, hruns, List.map_cons, List.append_assoc, List.singleton_append]

end Loops

/-! ## Primary reporters -/

section Primary

variable {tables : CatalogTables} {sources : OrderedMap String ChartSource}

/-- A reporter is primary if its source is the only one of the run, or the only one marked. -/
def primaryAt (tables : CatalogTables) (sources : OrderedMap String ChartSource) (path : String)
    (reporter : ChartMetricSource) : ChartMetricSource :=
  { reporter with
    primary := decide ((tables.fieldSources reporter.runId path).length = 1) ||
      (reporter.primary && decide (markedSources tables sources reporter.runId path = 1)) }

theorem foldl_markRun {runs : List String} (hruns : runs.Nodup) (metric : ChartMetric) :
    runs.foldl (markRun tables sources) metric =
      { metric with
        sources := metric.sources.map fun reporter ↦
          if reporter.runId ∈ runs then primaryAt tables sources metric.path reporter
          else reporter } := by
  induction runs generalizing metric with
  | nil => simp
  | cons run rest ih =>
    rw [List.nodup_cons] at hruns
    rw [List.foldl_cons, ih hruns.2, markRun]
    dsimp only
    rw [List.map_map]
    congr 1
    refine List.map_congr_left fun reporter _ ↦ ?_
    rw [Function.comp_apply]
    by_cases hrun : reporter.runId = run
    · subst hrun
      rw [if_pos rfl, if_pos List.mem_cons_self]
      exact if_neg hruns.1
    · rw [if_neg hrun]
      exact if_congr (by simp [hrun]) rfl rfl

variable (tables sources) in
/-- A metric that collects its reporters gets all of them marked. -/
theorem ChartMetric.Collects.markPrimary {metric : ChartMetric} {path : String}
    {reporters : List ChartMetricSource} (h : metric.Collects path reporters) :
    (markPrimary tables sources metric).path = path ∧
      (markPrimary tables sources metric).sources =
        reporters.map (primaryAt tables sources path) := by
  unfold Engine.markPrimary
  rw [foldl_markRun h.runs_nodup, h.path_eq, h.sources_eq]
  refine ⟨rfl, List.map_congr_left fun reporter hreporter ↦ ?_⟩
  exact if_pos ((h.mem_runs reporter.runId).mpr ⟨reporter, hreporter, rfl⟩)

theorem eq_of_length_eq_one {α : Type} {list : List α} (h : list.length = 1) {a b : α}
    (ha : a ∈ list) (hb : b ∈ list) : a = b := by
  obtain ⟨only, rfl⟩ := List.length_eq_one_iff.mp h
  rw [List.mem_singleton.mp ha, List.mem_singleton.mp hb]

/-- Two primary reporters of a run are of one source. -/
theorem sourceId_of_primaryAt {path : String} {reporter other : ChartMetricSource}
    (hrun : reporter.runId = other.runId)
    (hreporter : reporter.sourceId ∈ tables.fieldSources reporter.runId path)
    (hother : other.sourceId ∈ tables.fieldSources other.runId path)
    (hmarked : reporter.primary = isMarked sources reporter.sourceId)
    (hmarked' : other.primary = isMarked sources other.sourceId)
    (h : (primaryAt tables sources path reporter).primary = true)
    (h' : (primaryAt tables sources path other).primary = true) :
    reporter.sourceId = other.sourceId := by
  simp only [primaryAt, Bool.or_eq_true, Bool.and_eq_true, decide_eq_true_eq] at h h'
  rw [← hrun] at hother h'
  by_cases hcount : (tables.fieldSources reporter.runId path).length = 1
  · exact eq_of_length_eq_one hcount hreporter hother
  · obtain ⟨hprimary, hone⟩ := h.resolve_left hcount
    obtain ⟨hprimary', -⟩ := h'.resolve_left hcount
    rw [markedSources, List.countP_eq_length_filter] at hone
    refine eq_of_length_eq_one hone ?_ ?_
    · exact List.mem_filter.mpr ⟨hreporter, hmarked.symm.trans hprimary⟩
    · exact List.mem_filter.mpr ⟨hother, hmarked'.symm.trans hprimary'⟩

end Primary

end Rvx.Engine
